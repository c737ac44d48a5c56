import Unbox.Core
import Unbox.Declaration
import Unbox.Failure
import Unbox.Type

/-!
# Programs: the graph of declarations and types

* `Program` : names, declarations, type references and the core declarations, each table indexed by
  id; it is never written by the analyses;
* `Program.decl?`, `Program.form?` : look up by id, nothing for an id past the end;
* `Program.nameOf`, `Program.qualifiedName` : names for display.
-/

namespace Unbox

structure Program where
  names : Names := {}
  decls : Array Declaration := #[]
  types : Array TypeForm := #[]
  core : Core := default

namespace Program
variable (p : Program)

def decl? (d : DeclId) : Option Declaration := p.decls[d.index]?

def form? (t : TypeId) : Option TypeForm := p.types[t.index]?

def hasDecl (d : DeclId) : Bool := d.index < p.decls.size

def hasType (t : TypeId) : Bool := t.index < p.types.size

/-- The declaration of an id met at `location`. -/
def decl (d : DeclId) (location : Location) : Except Failure Declaration :=
  match p.decl? d with
  | some x => .ok x
  | none => .error (.unknownDeclaration d location)

/-- The class, interface or type parameter that a type reference points at. -/
def typeDeclaration? (t : TypeId) : Option DeclId := p.form? t >>= TypeForm.declaration?

/-- The class that a class extends. -/
def extendedClass? (d : DeclId) : Option DeclId := do
  let x ← p.decl? d
  let t ← x.extended
  p.typeDeclaration? t

/-- The declaration that the scope of `x` is. -/
def container? (x : Declaration) : Option Declaration := x.scope.declaration? >>= p.decl?

/-- The class or interface of a nominal type. -/
def nominal? (t : TypeId) : Option DeclId :=
  match p.form? t with
  | some (.nominal d _) => some d
  | _ => none

/-! ## Names for display -/

def nameOf (d : DeclId) : String :=
  match p.decl? d >>= Declaration.name with
  | some y => p.names.text y
  | none => "<anonymous>"

def ownerOf? (d : DeclId) : Option DeclId := p.decl? d >>= fun x => x.scope.owner?

/-- The owners of `d` from the inside out, at most `fuel` of them. -/
def owners : Nat → DeclId → List DeclId
  | 0, _ => []
  | fuel + 1, d =>
    match p.ownerOf? d with
    | some o => o :: owners fuel o
    | none => []

/-- The dotted name of a declaration through its owners, outermost first. The chain of owners is
cut at the number of declarations, which only a cyclic chain can reach. -/
def qualifiedName (d : DeclId) : String :=
  ".".intercalate ((d :: p.owners p.decls.size d).reverse.map p.nameOf)

/-! ## Parameters -/

/-- The declaration whose parameter list holds the parameter `d`. -/
def parameterized (d : DeclId) (x : Declaration) : Except Failure DeclId :=
  match x.isParameter, x.scope.declaration? with
  | true, some owner => .ok owner
  | _, _ => .error (.unhandledScope d (p.nameOf d) x.location)

/-- Declared directly inside a functional parameter. -/
def inFunctionalParameter (x : Declaration) : Except Failure Bool := do
  let some owner := x.scope.declaration? | return false
  return (← p.decl owner x.location).isFunctionalParameter

end Program

end Unbox
