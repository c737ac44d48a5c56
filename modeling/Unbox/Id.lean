/-!
# Ids: declarations, types and expressions by number

* `Entity` : the three kinds of thing that have a number of their own;
* `Id e` : the number of one of them, so that a declaration's id is never taken for a type's;
* `Id.invalid` : the number that names nothing, and `Id.text`, the way an id is shown.
-/

namespace Unbox

/-- The kinds of thing that are named by number. -/
inductive Entity where
  | declaration
  | type
  | expression
deriving DecidableEq

/-- The word an id of this kind is shown with. -/
def Entity.label : Entity → String
  | .declaration => "DeclId"
  | .type => "TypeId"
  | .expression => "ExprId"

/-- The position of an entity in its table; it may point past the end of the table. -/
structure Id (e : Entity) where
  index : Nat
deriving DecidableEq

abbrev DeclId := Id .declaration
abbrev TypeId := Id .type
abbrev ExprId := Id .expression

namespace Id
variable {e : Entity}

/-- The largest 32-bit number names nothing. -/
def invalid : Id e := ⟨4294967295⟩

instance : Inhabited (Id e) := ⟨invalid⟩

instance : LT (Id e) := ⟨fun a b => a.index < b.index⟩

instance (a b : Id e) : Decidable (a < b) := inferInstanceAs (Decidable (a.index < b.index))

def isValid (i : Id e) : Bool := i != invalid

def text (i : Id e) : String :=
  if i.isValid then e.label ++ "(" ++ i.index.repr ++ ")" else e.label ++ "(<invalid>)"

end Id

end Unbox
