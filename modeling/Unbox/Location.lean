/-!
# Locations: where a declaration or an expression stands

A location names a file by number and a place in it by line, column and byte offset. The unknown
location stands in no file.
-/

namespace Unbox

structure Location where
  file : Nat
  line : Nat
  column : Nat
  offset : Nat
deriving DecidableEq

namespace Location

def unknown : Location := ⟨4294967295, 0, 0, 0⟩

instance : Inhabited Location := ⟨0, 0, 0, 0⟩

/-- A file is named and lines count from one. -/
def isValid (l : Location) : Bool := l.file != unknown.file && 0 < l.line

end Location

end Unbox
