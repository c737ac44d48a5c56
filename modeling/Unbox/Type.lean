import Unbox.Id

/-!
# Type references

A type reference is one use of a type: of a declaration, of an expression, as an argument or as a
bound. `TypeForm` is what it says, `TypeForm.parts` the references it is made of. `MachineType` is a
narrower machine representation that a basic type may have.
-/

namespace Unbox

inductive TypeForm where
  /-- A class or interface applied to type arguments. -/
  | nominal (declaration : DeclId) (arguments : List TypeId)
  | typeParameter (declaration : DeclId)
  | union (cases : List TypeId)
  | intersection (members : List TypeId)
  /-- The bottom type. -/
  | nothing
  /-- A type that could not be computed; it equals no type, itself included. -/
  | error

namespace TypeForm

/-- The class, interface or type parameter that the type refers to. -/
def declaration? : TypeForm → Option DeclId
  | nominal d _ | typeParameter d => some d
  | _ => none

def arguments : TypeForm → List TypeId
  | nominal _ ts => ts
  | _ => []

/-- The references that the form is made of, from left to right. -/
def parts : TypeForm → List TypeId
  | nominal _ ts | union ts | intersection ts => ts
  | typeParameter _ | nothing | error => []

/-- The name of a form in listings. -/
def kindName : TypeForm → String
  | nominal _ _ => "nominal"
  | typeParameter _ => "tparam"
  | union _ => "union"
  | intersection _ => "intersection"
  | nothing => "nothing"
  | error => "error"

def isTypeParameter : TypeForm → Bool
  | typeParameter _ => true
  | _ => false

def isError : TypeForm → Bool
  | error => true
  | _ => false

end TypeForm

/-- A narrower machine representation of a basic type. -/
inductive MachineType where
  | byte
  | short
  | int
  | long
  | char
  | float
  | double
deriving DecidableEq

namespace MachineType

def all : List MachineType := [byte, short, int, long, char, float, double]

def text : MachineType → String
  | byte => "byte"
  | short => "short"
  | int => "int"
  | long => "long"
  | char => "char"
  | float => "float"
  | double => "double"

def ofText? (text : String) : Option MachineType := all.find? fun u => u.text == text

end MachineType

end Unbox
