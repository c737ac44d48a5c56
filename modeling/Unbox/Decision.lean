import Unbox.Refinement

/-!
# Decisions: boxed or unboxed, declaration by declaration

A declaration is decided once. Its decision is that of its topmost declaration, which is decided
first if need be; a topmost declaration is unboxed if its own type says so.

* `Context` : the program, the policy and the depth limit, none of which ever changes;
* `Decisions` : the marks found so far and the ones they replaced, with the rewrites in force, the
  declarations that are being decided and the counters;
* `Context.settle` : decides a declaration, given what it refines;
* `Context.ensure` : decides a declaration outside of any tree.

What is found before a failure stays.
-/

namespace Unbox

structure Context extends Target where
  /-- The longest refinement chain that is followed. -/
  limit : Nat

structure DeclarationStats where
  visited : Nat := 0
  inherited : Nat := 0
  forcedBoxed : Nat := 0
  typeErased : Nat := 0
  untrusted : Nat := 0
  rawTypes : Nat := 0
  /-- Decisions that turned out to depend on themselves. -/
  reentrant : Nat := 0
deriving DecidableEq

structure Decisions where
  marks : Marks
  /-- History variable: the marks that every write so far replaced, latest first. -/
  past : List Marks := []
  rewrites : Rewrites := {}
  /-- The declarations that are being decided. -/
  pending : List DeclId := []
  stats : DeclarationStats := {}

namespace Decisions

/-- The decisions after a write. -/
def record (s : Decisions) (m : Marks) : Decisions := { s with marks := m, past := s.marks :: s.past }

/-- All marks that there have been, latest first. -/
def moments (s : Decisions) : List Marks := s.marks :: s.past

end Decisions

/-- A step of deciding. It changes the decisions even if it fails in the end. -/
abbrev Decide := ExceptT Failure (StateM Decisions)

namespace Decide
variable {α : Type}

def modifyMarks (f : Marks → Marks) : Decide Unit := modify fun s => s.record (f s.marks)

def count (f : DeclarationStats → DeclarationStats) : Decide Unit :=
  modify fun s => { s with stats := f s.stats }

def unboxed (d : DeclId) : Decide (Option Bool) := return (← get).marks.unboxed d

/-- Asks a question about the bounds of type parameters. -/
def askBounds (question : StateM BoundMarks α) : Decide α :=
  modifyGet fun s =>
    let (a, bounds) := question s.marks.bounds
    (a, s.record { s.marks with bounds })

/-- Runs `act` between `enter` and `leave`, also if `act` fails. -/
def between (enter leave : Decisions → Decisions) (act : Decide α) : Decide α :=
  ExceptT.mk do
    modify enter
    let result ← act.run
    modify leave
    return result

/-- Runs `act` while `d` is being decided. -/
def deciding (d : DeclId) (act : Decide α) : Decide α :=
  between (fun s => { s with pending := d :: s.pending })
    (fun s => { s with pending := s.pending.erase d }) act

/-- Runs `act` while `literal` stands for `method`. -/
def standingFor (literal method : DeclId) (act : Decide α) : Decide α :=
  between (fun s => { s with rewrites := s.rewrites.push literal method })
    (fun s => { s with rewrites := s.rewrites.pop }) act

/-- Takes one step after the other, a failed one included, and says how each ended and what the
counters were then. -/
def each (step : α → Decide Unit) (s : Decisions) :
    List α → List (Except Failure Unit × DeclarationStats) × Decisions
  | [] => ([], s)
  | a :: as =>
    let (result, t) := (step a).run.run s
    let (rest, last) := each step t as
    ((result, t.stats) :: rest, last)

/-- Boxed whatever its type. -/
def force (d : DeclId) : Decide Unit := do
  modifyMarks (·.forceBoxed d)
  count fun s => { s with forcedBoxed := s.forcedBoxed + 1 }

def countVisit : Decide Unit := count fun s => { s with visited := s.visited + 1 }

def countInherited : Decide Unit := count fun s => { s with inherited := s.inherited + 1 }

end Decide

namespace Context
open Decide
variable (c : Context)

/-- The declaration of an id that is met at `location`. -/
def lookupAt (location : Location) (d : DeclId) : Decide Declaration :=
  MonadExcept.ofExcept (c.program.decl d location)

def lookup (d : DeclId) : Decide Declaration := c.lookupAt .unknown d

/-- The topmost declaration of `d` under the rewrites in force. -/
def topmost (d : DeclId) : Decide DeclId :=
  return c.program.topmost c.policy c.limit (← get).rewrites d

/-! ## Erasure and rawness -/

/-- Marks a declaration whose type erases, and an actual member whose type is lowered differently
from one that it refines. -/
def markErasure (d : DeclId) : Decide Unit := do
  let x ← c.lookup d
  let some type := x.type | return
  let erased ←
    if c.policy.hasErasure c.program type then pure true
    else askBounds (c.policy.substitutesBound c.program type)
  let untrusted := x.isActual && (c.program.container? x).any Declaration.isClassOrInterface &&
    c.policy.isWidening c.program d
  if erased || untrusted then
    modifyMarks (·.markErased d)
    count fun s => { s with typeErased := s.typeErased + 1 }
  if untrusted then
    modifyMarks (·.markUntrusted d)
    count fun s => { s with untrusted := s.untrusted + 1 }

/-- Marks the type of a declaration that uses a generic type without its arguments. -/
def markRaw (d : DeclId) : Decide Unit := do
  let some type := (← c.lookup d).type | return
  if c.policy.isRaw c.program type then
    if c.program.hasType type then modifyMarks (·.setRaw type true)
    count fun s => { s with rawTypes := s.rawTypes + 1 }

/-! ## The decision -/

/-- The type is a type parameter that keeps none of its bounds. -/
def isErasedTypeParameter (t : TypeId) : Decide Bool :=
  match c.program.form? t with
  | some (.typeParameter d) => return !(← askBounds (c.policy.keepsBound c.program d))
  | _ => return false

/-- The parameter of `refined` at the place that `d` has among those of `function`. -/
def positionalCounterpart (function refined d : DeclId) : Option DeclId := do
  let f ← c.program.decl? function
  let r ← c.program.decl? refined
  (f.parameterLists.zip r.parameterLists).findSome? fun (as, bs) =>
    as.idxOf? d >>= fun i => bs[i]?

/-- The decision of another declaration, which `inherit` settles first. -/
def inheritedFrom (inherit : DeclId → Decide Unit) (source : DeclId) : Decide (Option Bool) := do
  inherit source
  countInherited
  let _ ← c.lookup source
  unboxed source

/-- The decision for the value parameter `d` of the functional parameter `function`, which becomes a
method: that of its counterpart in the method that is refined, or else what its own type says. -/
def nestedVerdict (inherit : DeclId → Decide Unit) (d function : DeclId) (type : TypeId) :
    Decide (Option Bool) := do
  let refined ← c.topmost function
  if refined = function then
    return some !(c.policy.isAnything c.program type || c.policy.isOptional c.program type)
  else
    c.inheritedFrom inherit ((c.positionalCounterpart function refined d).getD refined)

/-- The decision for `d`, given what it refines. Nothing means that it stays undecided. -/
def verdict (inherit : DeclId → Decide Unit) (d refined : DeclId) (type : TypeId) :
    Decide (Option Bool) := do
  let x ← c.lookup d
  if x.isFunctionalParameter && !c.policy.createsMethod c.program d then
    return some false
  if refined ≠ d then
    return ← c.inheritedFrom inherit refined
  let erased ← c.isErasedTypeParameter type
  let nested ← MonadExcept.ofExcept (c.program.inFunctionalParameter x)
  let plain := !erased && !nested && !x.hasSeveralLists
  if x.isMethod && c.policy.isVoid c.program type && c.policy.boxesVoid c.program d && plain then
    return some false
  if (c.policy.isBasic c.program type || c.policy.isUnboxedVoid c.program d) && plain then
    return some true
  if x.isValueParameter && nested then
    let function ← MonadExcept.ofExcept (c.program.parameterized d x)
    if c.policy.createsMethod c.program function then
      return ← c.nestedVerdict inherit d function type
  return some false

/-- What `d` takes its decision from: a class parameter that is its own topmost declaration may
still stand for an inherited attribute. -/
def source (d refined : DeclId) (x : Declaration) : DeclId :=
  match x.scope with
  | .declaration owner =>
    if refined = d && x.isParameter && (c.program.decl? owner).any Declaration.isClass then
      x.refined.getD refined
    else refined
  | _ => refined

/-- A type without a machine representation of its own takes that of the declaration refined. -/
def inheritUnderlying (d refined : DeclId) (type : TypeId) : Decide Unit := do
  if refined ≠ d && ((← get).marks.underlying type).isNone then
    let r ← c.lookup refined
    let inherited := r.type >>= (← get).marks.underlying
    if inherited.isSome && c.program.hasType type then
      modifyMarks (·.setUnderlying type inherited)

/-- Decides `d`, given its topmost declaration, unless it has no type or is decided already. A
declaration whose decision depends on itself stays undecided. The chain of declarations that decide
each other has no repetition, so `fuel` beyond the number of declarations is never used up. -/
def settleWithin : Nat → DeclId → DeclId → Decide Unit
  | 0, _, _ => return
  | fuel + 1, d, topmost => do
    let x ← c.lookup d
    let some type := x.type | return
    let refined := c.source d topmost x
    c.inheritUnderlying d refined type
    if (← unboxed d).isSome then return
    if (← get).pending.contains d then
      count fun s => { s with reentrant := s.reentrant + 1 }
      return
    let inherit (r : DeclId) : Decide Unit := do
      let _ ← c.lookup r
      if (← unboxed r).isNone then settleWithin fuel r r
    match ← deciding d (c.verdict inherit d refined type) with
    | some b => modifyMarks (·.setUnboxed d b)
    | none => return

def settle (d topmost : DeclId) : Decide Unit :=
  c.settleWithin (c.program.decls.size + 1) d topmost

/-! ## Kinds of declarations -/

/-- A method without a name is boxed; one whose topmost declaration is no method stays undecided. -/
def decideMethod (d : DeclId) : Decide Unit := do
  let refined ← c.topmost d
  if !(← c.lookup refined).isMethod then return
  if (← c.lookup d).name.isSome then c.settle d refined
  else modifyMarks (·.setUnboxed d false)

def decideValue (d : DeclId) : Decide Unit := do
  let refined ← c.topmost d
  c.settle d refined

def visitMethod (d : DeclId) : Decide Unit := do
  c.markErasure d
  c.markRaw d
  c.decideMethod d

def visitValue (d : DeclId) : Decide Unit := do
  c.markErasure d
  c.markRaw d
  c.decideValue d

/-- The variables of conditions, bindings and iterations are their own topmost declarations. -/
def visitVariable (d : DeclId) : Decide Unit := do
  countVisit
  c.markErasure d
  c.markRaw d
  c.settle d d

/-- Settles whether a type parameter keeps a bound. -/
def visitTypeParameter (location : Location) (d : DeclId) : Decide Unit := do
  if (← c.lookupAt location d).isTypeParameter then
    let _ ← askBounds (c.policy.keepsBound c.program d)

/-- Iteration variables are boxed whatever their type. -/
def visitIterated (location : Location) (d : DeclId) : Decide Unit := do
  let _ ← c.lookupAt location d
  force d
  c.visitVariable d

/-- Decides a declaration outside of any tree. -/
def ensure (d : DeclId) : Decide Unit := do
  if (← c.lookup d).isMethod then c.decideMethod d else c.decideValue d

end Context

end Unbox
