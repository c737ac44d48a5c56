/-!
# Error codes

* `Code` : a number with what it means; `Code.all`, all that are in use;
* `Code.format` : the number as `E` and at least four digits; `Code.parse?`, the number of such a
  text.
-/

namespace Unbox

structure Code where
  number : Nat
  category : String
  description : String
  help : Option String
deriving DecidableEq

namespace Code

def reportHelp : Option String := some "This is an internal compiler error; please report it"

def assertionFailed : Code := ⟨9001, "Internal", "Compiler assertion failed", reportHelp⟩

def unexpectedState : Code := ⟨9002, "Internal", "Unexpected compiler state", reportHelp⟩

def unknownDeclaration : Code :=
  ⟨9101, "Representation", "Reference to a declaration missing from the declaration table",
    reportHelp⟩

def unknownType : Code :=
  ⟨9102, "Representation", "Reference to a type missing from the type table", reportHelp⟩

def unhandledScope : Code :=
  ⟨9103, "Representation",
    "Parameter declared in a scope that is neither a declaration nor a specification", reportHelp⟩

/-- The code of a problem that has no other. -/
def unknownError : Code :=
  ⟨9999, "Internal", "Unknown error",
    some "An unexpected error occurred; please report it with context"⟩

/-- All codes by number. -/
def all : List Code :=
  [assertionFailed, unexpectedState, unknownDeclaration, unknownType, unhandledScope, unknownError]

def get? (n : Nat) : Option Code := all.find? fun c => c.number == n

/-- The codes from `first` to `last`. -/
def range (first last : Nat) : List Code :=
  all.filter fun c => first ≤ c.number && c.number ≤ last

/-! ## Text -/

/-- `E` and the number with at least four digits. -/
def format (n : Nat) : String :=
  let digits := Nat.toDigits 10 n
  .ofList ('E' :: (List.replicate (4 - digits.length) '0' ++ digits))

/-- The value of a text of one or more digits. -/
def decimal? (cs : List Char) : Option Nat :=
  if cs.isEmpty || !cs.all Char.isDigit then none
  else some (cs.foldl (fun n c => 10 * n + (c.toNat - '0'.toNat)) 0)

/-- The number after `E`, which may have a plus sign and has to fit into sixteen bits. -/
def parse? (s : String) : Option Nat :=
  match s.toList with
  | 'E' :: '+' :: cs => (decimal? cs).filter (· ≤ 65535)
  | 'E' :: cs => (decimal? cs).filter (· ≤ 65535)
  | _ => none

def find? (s : String) : Option Code := parse? s >>= get?

def text (c : Code) : String :=
  format c.number ++ " [" ++ c.category ++ "]: " ++ c.description

end Code

end Unbox
