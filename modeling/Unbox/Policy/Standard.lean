import Unbox.Policy
import Unbox.TypeGraph

/-!
# The standard policy

For a target with primitive slots and one top reference type:

* Boolean, Integer, Float, Byte, Character and String are primitive;
* the top classes, null, unions and intersections erase to the top type, except that an optional
  type erases like the type it is made of;
* a type parameter erases to its first bound that does not erase, or to the top type.
-/

namespace Unbox.Program
variable (p : Program)

/-! ## Types -/

def isNominalOf (t : TypeId) (d : DeclId) : Bool := p.nominal? t == some d

def isNull (t : TypeId) : Bool := p.isNominalOf t p.core.null

def isBasic (t : TypeId) : Bool :=
  match p.form? t with
  | some (.nominal d []) => p.core.isBasicClass d
  | _ => false

/-- The one case that is not null of a union that has a null case. -/
def optionalPayload? (t : TypeId) : Option TypeId :=
  match p.form? t with
  | some (.union cases) =>
    match cases.partition p.isNull with
    | (_ :: _, [payload]) => some payload
    | _ => none
  | _ => none

def hasErasureTo : Nat → TypeId → Bool
  | 0, _ => false
  | depth + 1, t =>
    match p.optionalPayload? t with
    | some payload => hasErasureTo depth payload
    | none =>
      match p.form? t with
      | some (.union _) | some (.intersection _) | some .nothing => true
      | some (.nominal _ args) => args.any (hasErasureTo depth)
      | some (.typeParameter _) | some .error | none => false

def hasErasure (t : TypeId) : Bool := p.hasErasureTo p.typeDepth t

def erasesToObjectTo : Nat → TypeId → Bool
  | 0, _ => false
  | depth + 1, t =>
    match p.optionalPayload? t with
    | some payload => erasesToObjectTo depth payload
    | none =>
      match p.form? t with
      | some (.nominal d _) => p.core.isTopClass d
      | some (.union _) | some (.intersection _) | some .nothing => true
      | some (.typeParameter _) | some .error | none => false

def erasesToObject (t : TypeId) : Bool := p.erasesToObjectTo p.typeDepth t

def isRawTo : Nat → TypeId → Bool
  | 0, _ => false
  | depth + 1, t =>
    match p.form? t with
    | some (.nominal d []) => (p.decl? d).any fun x => !x.typeParameters.isEmpty
    | some (.nominal _ args) => args.any (isRawTo depth)
    | _ => false

def isRaw (t : TypeId) : Bool := p.isRawTo p.typeDepth t

/-- The first bound of a type parameter that does not erase to the top type. -/
def firstKeptBound? (d : DeclId) : Option TypeId :=
  p.decl? d >>= Declaration.bounds? >>= List.find? fun t => !p.erasesToObject t

/-- What a type looks like on the target, if that shows within the given depth. The bounds of type
parameters may lead back to the type, and then it shows at no depth. -/
def erasedTo : Nat → TypeId → Option Erased
  | 0, _ => none
  | depth + 1, t =>
    match p.optionalPayload? t with
    | some payload => (erasedTo depth payload).map Erased.boxed
    | none =>
      if p.isBasic t then (p.nominal? t).map .primitive
      else if p.erasesToObject t then some .object
      else match p.form? t with
        | some (.nominal d _) => some (.reference d)
        | some (.typeParameter d) =>
          match p.firstKeptBound? d with
          | some bound =>
            if p.isTypeParameterUse bound then some .object
            else (erasedTo depth bound).map Erased.boxed
          | none => some .object
        | _ => some .object

def erased (t : TypeId) : Option Erased := p.erasedTo p.typeDepth t

/-- A type argument that erases to the top type where its type parameter keeps a bound, in the type
or nested in its arguments. -/
def substitutesBoundTo : Nat → TypeId → StateM BoundMarks Bool
  | 0, _ => return false
  | depth + 1, t =>
    match p.form? t with
    | some (.nominal d args) =>
      match p.decl? d with
      | none => return false
      | some generic =>
        args.zipIdx.anyM fun (arg, i) => do
          let kept ← match generic.typeParameters[i]? with
            | some q => keepsBoundOf (fun t => return p.erasesToObject t) p q
            | none => pure false
          if kept && p.erasesToObject arg then return true
          substitutesBoundTo depth arg
    | _ => return false

def substitutesBound (t : TypeId) : StateM BoundMarks Bool :=
  p.substitutesBoundTo p.typeDepth t

theorem substitutesBoundTo_inquiry (depth : Nat) (t : TypeId) :
    Inquiry p.erasesToObject p (p.substitutesBoundTo depth t) := by
  induction depth generalizing t with
  | zero => exact .pure false
  | succ depth ih =>
    unfold substitutesBoundTo
    split
    · next d args _ =>
      cases p.decl? d with
      | none => exact .pure false
      | some generic =>
        refine .anyM fun (arg, i) => ?_
        have next (kept : Bool) : Inquiry p.erasesToObject p
            (if kept && p.erasesToObject arg then return true
            else p.substitutesBoundTo depth arg) := by
          split
          · exact .pure true
          · exact ih arg
        dsimp only
        cases generic.typeParameters[i]? with
        | some q => exact .bind (.keepsBound q) next
        | none => exact .bind (.pure false) next
    · exact .pure false

/-! ## Declarations -/

/-- The declarations that follow `current` along refinement, up to a repetition. -/
def refinementChainTo : Nat → List DeclId → Option DeclId → List DeclId
  | 0, _, _ | _, _, none => []
  | depth + 1, seen, some d =>
    if seen.contains d then []
    else d :: refinementChainTo depth (d :: seen) (p.decl? d >>= Declaration.refined)

/-- The declarations that `d` refines, nearest first. -/
def refinementChain (d : DeclId) : List DeclId :=
  p.refinementChainTo (p.decls.size + 1) [d] (p.decl? d >>= Declaration.refined)

def typeOf? (d : DeclId) : Option TypeId := p.decl? d >>= Declaration.type

def isWidening (d : DeclId) : Bool :=
  match p.typeOf? d with
  | none => false
  | some own =>
    ((p.refinementChain d).filterMap p.typeOf?).any fun t => p.erased t != p.erased own

def createsMethod (d : DeclId) : Bool :=
  (p.decl? d).any fun x =>
    x.isFunctionalParameter && (p.container? x).any Declaration.isClass &&
      (x.isShared || x.isCaptured)

def boxesVoid (d : DeclId) : Bool :=
  match p.decl? d with
  | none => true
  | some x =>
    match x.kind with
    | .method shape =>
      !shape.declaredVoid || x.hasSeveralLists || (x.isParameter && !p.createsMethod d)
    | _ => true

end Unbox.Program

namespace Unbox

/-- The policy for a target with primitive slots and one top reference type. -/
def Policy.standard : Policy where
  isBasic := Program.isBasic
  isNull := Program.isNull
  isObject p t := p.isNominalOf t p.core.object
  isAnything p t := p.isNominalOf t p.core.anything
  isCallable p t := p.isNominalOf t p.core.callable
  isOptional p t := (p.optionalPayload? t).isSome
  isIterableRoot p t := p.isNominalOf t p.core.iterable
  hasErasure := Program.hasErasure
  erasesToObject := Program.erasesToObject
  isRaw := Program.isRaw
  isWidening := Program.isWidening
  substitutesBound := Program.substitutesBound
  erased := Program.erased
  boxesVoid := Program.boxesVoid
  createsMethod := Program.createsMethod
  isTrue p d := d == p.core.trueValue
  isFalse p d := d == p.core.falseValue
  recalls p t := (p.substitutesBoundTo_inquiry p.typeDepth t).recalls

instance : Inhabited Policy := ⟨Policy.standard⟩

end Unbox
