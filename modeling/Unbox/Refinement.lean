import Unbox.Policy

/-!
# Refinement: which declaration another one stands for

The topmost declaration of a member is the one it refines in the end, in the most general
supertype. All members with one topmost declaration share its representation. Besides the
refinement pointers there are three ways to stand for another declaration:

* a parameter of an alias class, or of an actual member class, for the parameter at the same
  position of the class that is extended;
* a parameter of a method, or of a functional parameter that becomes a method, for the parameter at
  the same position of the method that is refined;
* a function literal that is specified for an inherited method, for that method, as long as the
  specification is being looked at (`Rewrites`).

`Program.resolve` follows them all and gives up at a declaration that is being resolved already, or
at the depth limit; `Program.topmost` then takes the declaration itself.
-/

namespace Unbox

/-- Which method a function literal stands for, innermost specification first. -/
structure Rewrites where
  entries : List (DeclId × DeclId) := []

namespace Rewrites

def push (r : Rewrites) (literal method : DeclId) : Rewrites := ⟨(literal, method) :: r.entries⟩

def pop (r : Rewrites) : Rewrites := ⟨r.entries.tail⟩

def top? (r : Rewrites) : Option (DeclId × DeclId) := r.entries.head?

def depth (r : Rewrites) : Nat := r.entries.length

def isEmpty (r : Rewrites) : Bool := r.entries.isEmpty

def lookup (r : Rewrites) (literal : DeclId) : Option DeclId := r.entries.lookup literal

end Rewrites

/-- What is reached from `queue` along `next`, nearest first, leaving out what is in `seen`; at most
`fuel` of it. -/
def breadthFirst {α : Type} [DecidableEq α] (next : α → List α) :
    Nat → List α → List α → List α
  | 0, _, _ => []
  | fuel + 1, seen, queue =>
    match queue.dropWhile fun a => seen.contains a with
    | [] => []
    | a :: rest => a :: breadthFirst next fuel (a :: seen) (rest ++ next a)

namespace Program
variable (p : Program)

/-! ## Members of supertypes -/

/-- Classes and interfaces directly above a declaration, the extended class first. -/
def parents (d : DeclId) : List DeclId :=
  match p.decl? d with
  | none => []
  | some x =>
    (x.supertypes.filterMap p.typeDeclaration?).filter fun s =>
      (p.decl? s).any Declaration.isClassOrInterface

/-- All classes and interfaces above a declaration, nearest first. -/
def ancestors (d : DeclId) : List DeclId :=
  breadthFirst p.parents (p.decls.size + 1) [d] (p.parents d)

/-- A shared declaration that is not actual, with the name and signature of `member`. -/
def isRefinable (member : Declaration) (d : DeclId) : Bool :=
  (p.decl? d).any fun x =>
    x.name == member.name && x.isShared && !x.isActual && x.sameSignature member

def refinableIn (member : Declaration) (owner : DeclId) : Option DeclId :=
  p.decl? owner >>= fun x => x.members.find? (p.isRefinable member)

/-- The member that `member` of `owner` refines: the nearest one above, or else one of the owner
itself. A declaration without a name refines nothing. -/
def refinedMember (owner : DeclId) (member : Declaration) : Option DeclId :=
  if member.name.isNone then none
  else (p.ancestors owner).findSome? (p.refinableIn member) <|> p.refinableIn member owner

/-! ## Standing for another declaration -/

/-- What one rule says about a declaration. -/
inductive Standing where
  /-- It stands for this declaration and no further rule applies. -/
  | settled (d : DeclId)
  /-- It stands for what this declaration stands for. -/
  | like (d : DeclId)

/-- The declaration that `d` refines, if that is another one. -/
def refinedOther? (d : DeclId) : Option DeclId :=
  (p.decl? d >>= Declaration.refined).filter (· != d)

/-- Standing by the refinement pointer of `d`. -/
def through (d : DeclId) : Standing :=
  match p.refinedOther? d with
  | some refined => .like refined
  | none => .settled d

/-- The class that directly owns the parameter `x`. -/
def owningClass? (x : Declaration) : Option DeclId :=
  if (x.isValue || x.isMethod) && x.isParameter then
    match x.scope with
    | .declaration owner => if (p.decl? owner).any Declaration.isClass then some owner else none
    | _ => none
  else none

/-- A parameter of a method, of a specification, or of a functional parameter that becomes a
method. -/
def isMethodParameter (policy : Policy) (x : Declaration) : Bool :=
  (x.isValue || x.isMethod) && x.isParameter &&
    match x.scope with
    | .specification _ => true
    | .declaration owner =>
      (p.decl? owner).any fun m => m.isMethod && (!m.isParameter || policy.createsMethod p owner)
    | .unit | .block _ => false

/-- The first class from `d` along extension that fails `keep`; nothing if there is none. -/
def climb (keep : Declaration → Bool) : Nat → List DeclId → DeclId → Option DeclId
  | 0, _, _ => none
  | fuel + 1, seen, d => do
    let x ← p.decl? d
    if !keep x then some d
    else if seen.contains d then none
    else climb keep fuel (d :: seen) (← p.extendedClass? d)

def climbWhile (keep : Declaration → Bool) (d : DeclId) : Option DeclId :=
  p.climb keep (p.decls.size + 1) [] d

/-- The parameter of an extended class that the parameter `d` of the class `owner` stands for, with
that class. Aliases are climbed to the end first, then actual classes; which of the two applies is
up to the owner alone. -/
def classCounterpart (owner d : DeclId) : Option (DeclId × DeclId) := do
  let x ← p.decl? owner
  if !x.isAlias && !x.isActual then return (owner, d)
  let index ← (← x.parameterLists.head?).idxOf? d
  let c ← if x.isAlias then p.climbWhile Declaration.isAlias owner else some owner
  let c ← if x.isActual then p.climbWhile Declaration.isActual c else some c
  let list ← (← p.decl? c).parameterLists.head?
  return (c, ← list[index]?)

/-- A parameter of a class stands for its counterpart in the class that is extended, and if that is
shared for the member it refines. -/
def classParameter (owner d : DeclId) : Standing :=
  match p.classCounterpart owner d with
  | none => .settled d
  | some (c, q) =>
    match p.decl? q with
    | none => .settled d
    | some x =>
      match if x.isShared then p.refinedMember c x else none with
      | some refined => if refined = q then .settled q else .like refined
      | none => .settled q

/-- What a search for the declaration at the same place in other parameter lists gives. -/
inductive Counterpart where
  | found (d : DeclId)
  /-- Lists of different lengths come before the place. -/
  | mismatch
  | absent

/-- The declaration in the second lists at the place of `d` in the first ones. -/
def counterpart (d : DeclId) : List (List DeclId) → List (List DeclId) → Counterpart
  | as :: ass, bs :: bss =>
    if as.length ≠ bs.length then .mismatch
    else match as.idxOf? d >>= fun i => bs[i]? with
      | some e => .found e
      | none => counterpart d ass bss
  | _, _ => .absent

/-- A parameter of the method `function` stands for the parameter at its place in the topmost method
`refined`. -/
def methodParameter (d function refined : DeclId) : Standing :=
  if refined = function then .settled d
  else match p.decl? function, p.decl? refined with
    | some f, some r =>
      if !r.isFunctional || f.parameterLists.length ≠ r.parameterLists.length then .settled d
      else match counterpart d f.parameterLists r.parameterLists with
        | .found q => .like q
        | .mismatch => .settled d
        | .absent => p.through d
    | _, _ => .settled d

/-- The method that a function literal stands for inside its specification. -/
def shortcut (rewrites : Rewrites) (d : DeclId) (x : Declaration) : Option DeclId :=
  if rewrites.isEmpty || !x.isMethod || x.refined.any (· != d) then none
  else match x.scope with
    | .specification specified =>
      if (p.decl? specified).any fun m => m.isMethod && m.isShortcutRefinement then
        rewrites.lookup d
      else none
    | _ => none

/-- The method whose topmost declaration says where the parameter `x` stands. -/
def askedMethod? (policy : Policy) (x : Declaration) : Option DeclId :=
  if (p.owningClass? x).isNone && p.isMethodParameter policy x then x.scope.declaration? else none

/-- The first rule that applies to the declaration `x` of id `d`, if no method is to be asked. -/
def standing (policy : Policy) (rewrites : Rewrites) (d : DeclId) (x : Declaration) : Standing :=
  match p.owningClass? x with
  | some owner => p.classParameter owner d
  | none =>
    if p.isMethodParameter policy x then .settled d
    else p.through ((p.shortcut rewrites d x).getD d)

/-! ## Resolution -/

/-- A step of a resolution; its state is the path, the declarations that are being resolved. -/
abbrev Resolving := StateM (List DeclId)

/-- Runs `act` with `d` on the path. -/
def Resolving.entering {α : Type} (d : DeclId) (act : Resolving α) : Resolving α := do
  modify (d :: ·)
  let a ← act
  modify (·.erase d)
  return a

/-- The topmost declaration by a standing. -/
def Standing.follow (resolve : DeclId → Resolving (Option DeclId)) :
    Standing → Resolving (Option DeclId)
  | .settled d => return some d
  | .like d => resolve d

/-- The topmost declaration by the first rule that applies to `d`; what the rule refers to is
resolved with `resolve`. -/
def applyRules (policy : Policy) (rewrites : Rewrites)
    (resolve : DeclId → Resolving (Option DeclId)) (d : DeclId) : Resolving (Option DeclId) := do
  match p.decl? d with
  | none => return some d
  | some x =>
    match p.askedMethod? policy x with
    | none => (p.standing policy rewrites d x).follow resolve
    | some function =>
      match ← resolve function with
      | none => return none
      | some refined => (p.methodParameter d function refined).follow resolve

/-- The topmost declaration of `d`, or nothing if its chain leads back into the path or is longer
than `room`. -/
def resolve (policy : Policy) (rewrites : Rewrites) : Nat → DeclId → Resolving (Option DeclId)
  | 0, _ => return none
  | room + 1, d => do
    if (← get).contains d then return none
    else Resolving.entering d (p.applyRules policy rewrites (resolve policy rewrites room) d)

/-- The longest chain that is followed unless another limit is set. -/
def defaultLimit : Nat := 256

/-- The topmost declaration of `d`; `d` itself if its chain is cyclic or longer than `limit`. -/
def topmost (policy : Policy) (limit : Nat) (rewrites : Rewrites) (d : DeclId) : DeclId :=
  ((p.resolve policy rewrites (max limit 1) d).run []).1.getD d

end Program

end Unbox
