import Unbox.Source.Map

/-!
# Diagnostics

A diagnostic has a severity, a message, a place if there is one, labels for further places, notes
and help. `Diagnostic.render` shows it as text, with the source line and carets under the place.
-/

namespace Unbox

inductive Severity where
  | error
  | warning
  | note
deriving DecidableEq

namespace Severity

def text : Severity → String
  | error => "error"
  | warning => "warning"
  | note => "note"

def ofText? (text : String) : Option Severity :=
  [error, warning, note].find? fun s => s.text == text

/-- Errors come first, notes last. -/
def rank : Severity → Nat
  | error => 0
  | warning => 1
  | note => 2

def sort (ss : List Severity) : List Severity := ss.mergeSort fun a b => a.rank ≤ b.rank

end Severity

inductive LabelStyle where
  | primary
  | secondary
deriving DecidableEq

def LabelStyle.text : LabelStyle → String
  | primary => "primary"
  | secondary => "secondary"

structure Label where
  span : Span
  message : String
  style : LabelStyle := .primary
deriving DecidableEq

structure Diagnostic where
  severity : Severity
  message : String
  code : Option String := none
  /-- Absent if the problem has no place in a file. -/
  span : Option Span := none
  labels : List Label := []
  notes : List String := []
  help : List String := []
deriving DecidableEq

def repeated (n : Nat) (c : Char) : String := .ofList (List.replicate n c)

namespace Diagnostic
variable (d : Diagnostic)

def isError : Bool := d.severity == .error

/-- A problem that the program being compiled is not to blame for. -/
def internal (phase code message : String) (span : Option Span) : Diagnostic where
  severity := .error
  message := "internal compiler error in " ++ phase ++ ": " ++ message
  code := some code
  span := span
  labels := span.toList.map fun s => ⟨s, "while compiling this", .primary⟩
  notes := ["this is a bug in the compiler, not in the program"]

def withHelp (help : Option String) : Diagnostic := { d with help := d.help ++ help.toList }

/-! ## Text -/

def heading : String :=
  let code := match d.code with
    | some c => "[" ++ c ++ "]"
    | none => ""
  d.severity.text ++ code ++ ": " ++ d.message

/-- The place of a position in a file. -/
def placeText (name : String) (p : Position) : String :=
  "  --> " ++ name ++ ":" ++ p.line.repr ++ ":" ++ p.column.repr

/-- How many carets a span has under the text of its first line: one for each column of a span
within a line, or else as many as there is text after its start, and at least one. -/
def caretCount (span : Span) (line : String) : Nat :=
  let width :=
    if span.isSingleLine then span.stop.column - span.start.column
    else line.utf8ByteSize - (span.start.column - 1)
  max width 1

/-- The line with the carets, without the gutter. -/
def carets (span : Span) (line : String) : String :=
  repeated (span.start.column - 1) ' ' ++ repeated (caretCount span line) '^'

/-- The source line of a span with carets under it and the first primary label behind them. -/
def excerpt (span : Span) (line : String) : List String :=
  let number := span.start.line.repr
  let gutter := repeated number.length ' '
  let label := match d.labels.find? fun l => l.style == .primary with
    | some l => " " ++ l.message
    | none => ""
  [gutter ++ " |", number ++ " | " ++ line, gutter ++ " | " ++ carets span line ++ label]

def snippet (sources : SourceMap) (span : Span) : List String :=
  match sources.fileName? span.file with
  | none => []
  | some name =>
    placeText name span.start ::
      match sources.line? span.file span.start.line with
      | some line => d.excerpt span line
      | none => []

def secondaryLines (sources : SourceMap) : List String :=
  (d.labels.filter fun l => l.style == .secondary).filterMap fun l =>
    (sources.fileName? l.span.file).map fun name =>
      placeText name l.span.start ++ ": " ++ l.message

/-- The lines of the text that shows a diagnostic. -/
def lines (sources : SourceMap) : List String :=
  d.heading :: (d.span.toList.flatMap (d.snippet sources) ++ d.secondaryLines sources ++
    d.help.map ("  = help: " ++ ·) ++ d.notes.map ("  = note: " ++ ·))

def render (sources : SourceMap) : String :=
  String.join ((d.lines sources).map (· ++ "\n"))

/-- Several diagnostics with an empty line between them. -/
def renderAll (sources : SourceMap) (ds : List Diagnostic) : String :=
  "\n".intercalate (ds.map fun d => d.render sources)

end Diagnostic

end Unbox
