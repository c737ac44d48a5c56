import Unbox.Source

/-!
# Source maps: all files of one compilation, and spans in them
-/

namespace Unbox

structure FileId where
  index : Nat
deriving DecidableEq

def FileId.text (f : FileId) : String := "FileId(" ++ f.index.repr ++ ")"

/-- A stretch of a file. -/
structure Span where
  start : Position
  stop : Position
  file : FileId
deriving DecidableEq

namespace Span

/-- The span of one column at a position; what comes after the last word is zero. -/
def point (p : Position) (file : FileId) : Span :=
  ⟨p, ⟨p.line, wrap (p.column + 1), wrap (p.offset + 1)⟩, file⟩

/-- The smallest span around two spans of one file. -/
def merge? (a b : Span) : Option Span :=
  if a.file ≠ b.file then none
  else
    let start := if a.start.offset ≤ b.start.offset then a.start else b.start
    let stop := if b.stop.offset ≤ a.stop.offset then a.stop else b.stop
    some ⟨start, stop, a.file⟩

def isSingleLine (s : Span) : Bool := s.start.line == s.stop.line

end Span

structure SourceMap where
  files : Array SourceFile := #[]

namespace SourceMap
variable (m : SourceMap)

def addFile (name content : String) : FileId × SourceMap :=
  (⟨m.files.size⟩, ⟨m.files.push ⟨name, content⟩⟩)

def file? (f : FileId) : Option SourceFile := m.files[f.index]?

def fileName? (f : FileId) : Option String := (m.file? f).map SourceFile.name

def line? (f : FileId) (line : Nat) : Option String := m.file? f >>= fun x => x.line? line

def fileIds : List FileId := (List.range m.files.size).map .mk

/-- The span between two offsets of a file. -/
def spanOf? (f : FileId) (start stop : Nat) : Option Span := do
  let x ← m.file? f
  return ⟨x.position start, x.position stop, f⟩

/-- The span of one column at a line and column of a file. -/
def spanAt? (f : FileId) (line column : Nat) : Option Span := do
  let x ← m.file? f
  let offset ← x.offsetOf? line column
  return .point ⟨line, column, offset⟩ f

end SourceMap

end Unbox
