import Unbox.Code
import Unbox.Id
import Unbox.Location

/-!
# Failures: a program that breaks the promises of the checker

An unresolved reference is absent in the tree and no failure. A failure is a reference to an id
that is in no table, or a parameter in a scope that has no parameters.
-/

namespace Unbox

inductive Failure where
  | unknownDeclaration (id : DeclId) (location : Location)
  | unknownType (id : TypeId) (location : Location)
  /-- A parameter whose scope is neither a declaration nor a specification. -/
  | unhandledScope (declaration : DeclId) (name : String) (location : Location)
deriving DecidableEq

namespace Failure

def message : Failure → String
  | unknownDeclaration d _ => "reference to unknown declaration " ++ d.text
  | unknownType t _ => "reference to unknown type " ++ t.text
  | unhandledScope _ name _ => "unhandled container scope for parameter '" ++ name ++ "'"

def location : Failure → Location
  | unknownDeclaration _ l | unknownType _ l | unhandledScope _ _ l => l

def code : Failure → Code
  | unknownDeclaration _ _ => .unknownDeclaration
  | unknownType _ _ => .unknownType
  | unhandledScope _ _ _ => .unhandledScope

/-- The name of the kind of failure in listings. -/
def kindName : Failure → String
  | unknownDeclaration _ _ => "UnknownDeclaration"
  | unknownType _ _ => "UnknownType"
  | unhandledScope _ _ _ => "UnhandledScope"

end Failure

end Unbox
