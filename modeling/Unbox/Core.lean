import Unbox.Id

/-!
# Core: the declarations that the language itself provides
-/

namespace Unbox

/-- The declarations of the language module that the rules have to recognise. -/
structure Core where
  anything : DeclId
  object : DeclId
  null : DeclId
  basic : DeclId
  boolean : DeclId
  trueValue : DeclId
  falseValue : DeclId
  integer : DeclId
  float : DeclId
  byte : DeclId
  character : DeclId
  string : DeclId
  callable : DeclId
  iterable : DeclId
  sequential : DeclId
deriving Inhabited

namespace Core
variable (c : Core) (d : DeclId)

/-- The declarations with the names that the language gives them. -/
def entries : List (String × DeclId) :=
  [("Anything", c.anything), ("Object", c.object), ("Basic", c.basic), ("Null", c.null),
    ("Boolean", c.boolean), ("true", c.trueValue), ("false", c.falseValue),
    ("Integer", c.integer), ("Float", c.float), ("Byte", c.byte), ("Character", c.character),
    ("String", c.string), ("Callable", c.callable), ("Iterable", c.iterable),
    ("Sequential", c.sequential)]

/-- The classes whose instances have a primitive representation. -/
def isBasicClass : Bool :=
  [c.boolean, c.integer, c.float, c.byte, c.character, c.string].contains d

/-- The classes whose constructor makes a literal out of a literal. -/
def isNumericClass : Bool := [c.integer, c.float, c.byte].contains d

/-- The classes that always erase to the top type. -/
def isTopClass : Bool := [c.anything, c.object, c.basic, c.null].contains d

end Core

end Unbox
