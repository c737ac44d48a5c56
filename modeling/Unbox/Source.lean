/-!
# Source files, lines and positions

* `Arithmetic` : sums of machine words that are too large wrap around, or fail;
* `SourceFile` : a name and a text; offsets and columns count the bytes of its encoding;
* `SourceFile.lineStarts` : where the lines begin; `SourceFile.line?`, the text of a line;
* `SourceFile.position`, `SourceFile.offset` : from offsets to lines and columns and back;
  `SourceFile.offsetOf?`, the way back where sums wrap around.
-/

namespace Unbox

/-! ## Sums of words -/

/-- Offsets, lines and columns are words, the numbers below this one. -/
def wordBound : Nat := 18446744073709551616

def wrap (n : Nat) : Nat := n % wordBound

theorem wrap_of_lt {n : Nat} (h : n < wordBound) : wrap n = n := Nat.mod_eq_of_lt h

/-- Two words whose sum is no word. -/
structure Overflow where
  left : Nat
  right : Nat
deriving DecidableEq

/-- What becomes of such a sum. -/
inductive Arithmetic where
  /-- It wraps around. -/
  | wrapping
  /-- The call fails. -/
  | checked
deriving DecidableEq

def Arithmetic.add (m : Arithmetic) (a b : Nat) : Except Overflow Nat :=
  match m with
  | wrapping => .ok (wrap (a + b))
  | checked => if a + b < wordBound then .ok (a + b) else .error ⟨a, b⟩

theorem Arithmetic.add_of_lt (m : Arithmetic) {a b : Nat} (h : a + b < wordBound) :
    m.add a b = .ok (a + b) := by
  cases m with
  | wrapping => exact congrArg Except.ok (wrap_of_lt h)
  | checked => exact if_pos h

/-! ## Bytes of a text -/

/-- The number of bytes of a text. -/
def byteCount (cs : List Char) : Nat := cs.foldr (fun c n => c.utf8Size + n) 0

/-- The text after its first `n` bytes, if these are whole characters. -/
def dropBytes? : Nat → List Char → Option (List Char)
  | 0, cs => some cs
  | _ + 1, [] => none
  | n + 1, c :: cs => if n + 1 < c.utf8Size then none else dropBytes? (n + 1 - c.utf8Size) cs

/-- The first `n` bytes of a text, if these are whole characters. -/
def takeBytes? : Nat → List Char → Option (List Char)
  | 0, _ => some []
  | _ + 1, [] => none
  | n + 1, c :: cs =>
    if n + 1 < c.utf8Size then none else (takeBytes? (n + 1 - c.utf8Size) cs).map (c :: ·)

/-- The part of a text from byte `start` to byte `stop`, if both are at the edge of a character. -/
def slice? (start stop : Nat) (cs : List Char) : Option (List Char) :=
  if start ≤ stop then dropBytes? start cs >>= takeBytes? (stop - start) else none

/-- The offsets after the line ends of a text that begins at `offset`. -/
def lineStartsFrom (offset : Nat) : List Char → List Nat
  | [] => []
  | c :: cs =>
    let next := offset + c.utf8Size
    if c = '\n' then next :: lineStartsFrom next cs else lineStartsFrom next cs

/-- Line feeds and carriage returns. -/
def isLineEnd (c : Char) : Bool := c = '\n' || c = '\r'

/-- The text without the line ends that it ends with. -/
def trimLineEnds (cs : List Char) : List Char := (cs.reverse.dropWhile isLineEnd).reverse

/-! ## Positions -/

/-- Lines and columns count from one, offsets from zero. -/
structure Position where
  line : Nat
  column : Nat
  offset : Nat
deriving DecidableEq

structure SourceFile where
  name : String
  content : String

namespace SourceFile
variable (f : SourceFile)

def size : Nat := byteCount f.content.toList

def lineStarts : List Nat := 0 :: lineStartsFrom 0 f.content.toList

def lineCount : Nat := f.lineStarts.length

/-- The offset at which a line begins; lines count from one. -/
def lineStart? : Nat → Option Nat
  | 0 => none
  | line + 1 => f.lineStarts[line]?

/-- The text of a line without the line ends after it. -/
def line? (line : Nat) : Option String := do
  let start ← f.lineStart? line
  let stop := (f.lineStart? (line + 1)).getD f.size
  let text ← slice? start stop f.content.toList
  return .ofList (trimLineEnds text)

/-- The position of an offset; an offset past the end is moved to the end. -/
def position (offset : Nat) : Position :=
  let offset := min offset f.size
  let before := f.lineStarts.takeWhile (· ≤ offset)
  ⟨before.length, offset - before.getLastD 0 + 1, offset⟩

/-- The offset of a line and column, if there is such a line; a column past the end of the file is
moved to the end. -/
def offset (m : Arithmetic) (line column : Nat) : Except Overflow (Option Nat) :=
  match f.lineStart? line with
  | none => return none
  | some start => return some (min (← m.add start (column - 1)) f.size)

/-- The offset of a line and column, if there is such a line. No sum fails. -/
def offsetOf? (line column : Nat) : Option Nat := (f.offset .wrapping line column).toOption.join

theorem offset_wrapping (line column : Nat) :
    f.offset .wrapping line column = .ok (f.offsetOf? line column) := by
  unfold offsetOf? offset
  cases f.lineStart? line <;> rfl

end SourceFile

end Unbox
