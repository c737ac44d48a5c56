import Unbox.Marks
import Unbox.Program

/-!
# Drafts: programs under construction

* `Draft` : a program with its marks, the next free expression id and the place where whatever
  comes next stands;
* `Build` : a step of construction;
* `Build.declare` and what follows it : declarations, which register themselves with the class or
  interface that they are members of, and parameters, which go to the end of the last list of their
  owner;
* `Build.newType` and what follows it : type references, each use a new one.
-/

namespace Unbox

structure Draft where
  program : Program := {}
  marks : Marks := {}
  nextExpr : Nat := 0
  location : Location := .unknown

abbrev Build := StateM Draft

namespace Build

def program : Build Program := return (← get).program

def modifyProgram (f : Program → Program) : Build Unit :=
  modify fun s => { s with program := f s.program }

def modifyMarks (f : Marks → Marks) : Build Unit := modify fun s => { s with marks := f s.marks }

/-- Whatever comes next stands at `location`. -/
def standAt (location : Location) : Build Unit := modify fun s => { s with location }

def intern (text : String) : Build Symbol :=
  modifyGet fun s =>
    let (y, names) := s.program.names.intern text
    (y, { s with program := { s.program with names } })

/-! ## Declarations -/

/-- Changes a declaration if it is in the table. -/
def edit (d : DeclId) (f : Declaration → Declaration) : Build Unit :=
  modifyProgram fun p => { p with decls := p.decls.modify d.index f }

def editKind (d : DeclId) (f : Kind → Kind) : Build Unit :=
  edit d fun x => { x with kind := f x.kind }

/-- A new declaration at the end of the table. -/
def add (name : Option String) (kind : Kind) (scope : Scope) : Build DeclId := do
  let name ← match name with
    | some text => some <$> intern text
    | none => pure none
  let d : DeclId := ⟨(← program).decls.size⟩
  modifyProgram fun p => { p with decls := p.decls.push { name, kind, scope } }
  return d

def addModifiers (d : DeclId) (ms : Modifiers) : Build Unit :=
  edit d fun x => { x with modifiers := x.modifiers.union ms }

def addModifier (d : DeclId) (m : Modifier) : Build Unit :=
  edit d fun x => { x with modifiers := x.modifiers.insert m }

def setType (d : DeclId) (t : TypeId) : Build Unit := edit d fun x => { x with type := some t }

def refines (d refined : DeclId) : Build Unit := edit d fun x => { x with refined := some refined }

/-- Appends a member to a class or interface. -/
def addMember (owner member : DeclId) : Build Unit :=
  editKind owner fun
    | .classType c => .classType { c with members := c.members ++ [member] }
    | .interfaceType i => .interfaceType { i with members := i.members ++ [member] }
    | k => k

/-- A new declaration at the current place. At unit level it is a toplevel one; in a class or
interface it is a member, unless it is a type parameter. -/
def declare (name : Option String) (kind : Kind) (scope : Scope) : Build DeclId := do
  let d ← add name kind scope
  let location := (← get).location
  edit d fun x => { x with location }
  match scope, kind with
  | .unit, _ => addModifier d .toplevel
  | .declaration _, .typeParameter _ => return d
  | .declaration owner, _ => addMember owner d
  | _, _ => return d
  return d

def declareClass (name : String) (scope : Scope) : Build DeclId :=
  declare (some name) (.classType {}) scope

def declareClassWithParameters (name : String) (scope : Scope) : Build DeclId :=
  declare (some name) (.classType { list := some [] }) scope

def declareInterface (name : String) (scope : Scope) : Build DeclId :=
  declare (some name) (.interfaceType {}) scope

def declareValue (name : String) (scope : Scope) (type : TypeId) : Build DeclId := do
  let d ← declare (some name) .value scope
  setType d type
  return d

/-- A method with one empty parameter list. -/
def declareMethod (name : Option String) (scope : Scope) (result : TypeId) : Build DeclId := do
  let d ← declare name (.method { lists := [[]] }) scope
  setType d result
  return d

/-- The method of a function literal. -/
def declareAnonymous (scope : Scope) (result : TypeId) : Build DeclId := do
  let d ← declareMethod none scope result
  addModifier d .functionArgument
  return d

def declareTypeAlias (name : String) (scope : Scope) (target : TypeId) : Build DeclId :=
  declare (some name) (.typeAlias (some target)) scope

/-- A type parameter at the end of those of its owner. -/
def declareTypeParameter (owner : DeclId) (name : String) (bounds : List TypeId) :
    Build DeclId := do
  let d ← declare (some name) (.typeParameter { variance := .invariant, bounds })
    (.declaration owner)
  edit owner fun x => { x with typeParameters := x.typeParameters ++ [d] }
  return d

/-- The lists with `d` at the end of the last one. -/
def appendToLast (d : DeclId) : List (List DeclId) → List (List DeclId)
  | [] => [[d]]
  | [list] => [list ++ [d]]
  | list :: lists => list :: appendToLast d lists

def appendParameter (owner d : DeclId) : Build Unit :=
  editKind owner fun
    | .method m => .method { m with lists := appendToLast d m.lists }
    | .classType c => .classType { c with list := some (c.list.getD [] ++ [d]) }
    | k => k

def declareParameter (owner : DeclId) (name : String) (type : TypeId) : Build DeclId := do
  let d ← declareValue name (.declaration owner) type
  addModifier d .parameter
  appendParameter owner d
  return d

def declareFunctionalParameter (owner : DeclId) (name : String) (result : TypeId) :
    Build DeclId := do
  let d ← declareMethod (some name) (.declaration owner) result
  addModifier d .parameter
  appendParameter owner d
  return d

/-- A further, empty parameter list of a method. -/
def addParameterList (d : DeclId) : Build Unit :=
  editKind d fun
    | .method m => .method { m with lists := m.lists ++ [[]] }
    | k => k

def extend (d : DeclId) (parent : TypeId) : Build Unit :=
  editKind d fun
    | .classType c => .classType { c with extended := some parent }
    | k => k

def satisfy (d : DeclId) (type : TypeId) : Build Unit :=
  editKind d fun
    | .classType c => .classType { c with satisfied := c.satisfied ++ [type] }
    | .interfaceType i => .interfaceType { i with satisfied := i.satisfied ++ [type] }
    | .typeParameter t => .typeParameter { t with bounds := t.bounds ++ [type] }
    | k => k

/-! ## Type references -/

/-- A new type reference at the end of the table. -/
def newType (form : TypeForm) : Build TypeId := do
  let t : TypeId := ⟨(← program).types.size⟩
  modifyProgram fun p => { p with types := p.types.push form }
  return t

/-- A class or interface without type arguments. -/
def typeOf (d : DeclId) : Build TypeId := newType (.nominal d [])

def coreType (select : Core → DeclId) : Build TypeId := do typeOf (select (← program).core)

/-- A type or null. -/
def optional (t : TypeId) : Build TypeId := do
  let null ← coreType Core.null
  newType (.union [t, null])

def sequential (t : TypeId) : Build TypeId := do
  newType (.nominal (← program).core.sequential [t])

/-- A new reference that says the same and has the same marks. An id that is in no table is passed
on. -/
def duplicate (t : TypeId) : Build TypeId := do
  match (← program).form? t with
  | none => return t
  | some form =>
    let copy ← newType form
    modifyMarks fun m => { m with types := m.types.set copy (m.types.get t) }
    return copy

def duplicateOption : Option TypeId → Build (Option TypeId)
  | some t => some <$> duplicate t
  | none => return none

/-- A method declared `void`. -/
def declareVoidMethod (name : String) (scope : Scope) : Build DeclId := do
  let anything ← coreType Core.anything
  let d ← declareMethod (some name) scope anything
  editKind d fun
    | .method m => .method { m with declaredVoid := true }
    | k => k
  return d

/-- A setter and its parameter, which comes first in the table. -/
def declareSetter (name : String) (scope : Scope) (type : TypeId) : Build (DeclId × DeclId) := do
  let parameter ← add (some name) .value .unit
  let setter ← declare (some name) (.setter parameter) scope
  let copy ← duplicate type
  let location := (← get).location
  edit parameter fun x =>
    { x with
      scope := .declaration setter
      modifiers := x.modifiers.insert .parameter
      type := some copy
      location }
  return (setter, parameter)

/-! ## Marks -/

/-- Decides a declaration unless that is done or it is in no table; says whether it did. -/
def setUnboxed (d : DeclId) (b : Bool) : Build Bool := do
  let s ← get
  if s.program.hasDecl d && (s.marks.unboxed d).isNone then
    modifyMarks (·.setUnboxed d b)
    return true
  else return false

def forceBoxed (d : DeclId) : Build Unit := do
  if (← program).hasDecl d then modifyMarks (·.forceBoxed d)

def setRaw (t : TypeId) (b : Bool) : Build Unit := do
  if (← program).hasType t then modifyMarks (·.setRaw t b)

def setUnderlying (t : TypeId) (u : Option MachineType) : Build Unit := do
  if (← program).hasType t then modifyMarks (·.setUnderlying t u)

end Build

end Unbox
