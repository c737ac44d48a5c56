import Unbox.Source

/-!
# Reading JSON text

A text is read from left to right and the first problem decides. Each reader takes the text that is
left and gives what it read with the text after it.

* `Problem` : not JSON, an early end, or JSON of the wrong shape;
* `Json.readString`, `Json.readNumber` and the like read what is wanted;
* `Json.skipValue` passes over a value whose content does not matter;
* `Json.wrongShape` : the problem with a value that is not of the wanted kind.
-/

namespace Unbox

/-- What can be wrong with a text. -/
inductive Problem where
  /-- The text is not JSON. -/
  | syntaxError
  /-- The text ends early. -/
  | endOfText
  /-- The text is JSON of the wrong shape. -/
  | wrongData
deriving DecidableEq

namespace Json

/-- A reader gives what it read and the text that is left. -/
abbrev Read (α : Type) := List Char → Except Problem (α × List Char)

def isBlank (c : Char) : Bool := c = ' ' || c = '\n' || c = '\t' || c = '\r'

def skipBlanks (cs : List Char) : List Char := cs.dropWhile isBlank

/-- The rest of a word. -/
def readWord : List Char → Read Unit
  | [], cs => .ok ((), cs)
  | _ :: _, [] => .error .endOfText
  | w :: ws, c :: cs => if c = w then readWord ws cs else .error .syntaxError

/-! ## Texts -/

def hexValue? (c : Char) : Option Nat :=
  if '0' ≤ c ∧ c ≤ '9' then some (c.toNat - '0'.toNat)
  else if 'a' ≤ c ∧ c ≤ 'f' then some (c.toNat - 'a'.toNat + 10)
  else if 'A' ≤ c ∧ c ≤ 'F' then some (c.toNat - 'A'.toNat + 10)
  else none

/-- Four hexadecimal digits. With fewer than four bytes left the text ends early, whatever they
are. -/
def readHex : Read Nat := fun cs =>
  if byteCount (cs.take 4) < 4 then .error .endOfText
  else match (cs.take 4).mapM hexValue? with
    | some ds => .ok (ds.foldl (fun n d => 16 * n + d) 0, cs.drop 4)
    | none => .error .syntaxError

/-- The characters that a backslash and one letter stand for. -/
def letterEscape? (c : Char) : Option Char :=
  if c = '"' ∨ c = '\\' ∨ c = '/' then some c
  else if c = 'b' then some '\x08'
  else if c = 'f' then some '\x0c'
  else if c = 'n' then some '\n'
  else if c = 'r' then some '\r'
  else if c = 't' then some '\t'
  else none

def isLeading (n : Nat) : Bool := 0xD800 ≤ n && n ≤ 0xDBFF

def isTrailing (n : Nat) : Bool := 0xDC00 ≤ n && n ≤ 0xDFFF

/-- A character given by its number. One outside of the basic plane is written as a leading and a
trailing half. -/
def readCodePoint : Read (List Char) := fun cs => do
  let (n, cs) ← readHex cs
  if isTrailing n then .error .syntaxError
  else if isLeading n then
    let ((), cs) ← readWord ['\\', 'u'] cs
    let (m, cs) ← readHex cs
    if isTrailing m then
      return ([Char.ofNat (0x10000 + (n - 0xD800) * 0x400 + (m - 0xDC00))], cs)
    else .error .syntaxError
  else return ([Char.ofNat n], cs)

/-- A character given by its number, which does not have to be one. -/
def skipCodePoint : Read (List Char) := fun cs => do
  let (_, cs) ← readHex cs
  return ([], cs)

/-- What follows a backslash. -/
def readEscape (codePoint : Read (List Char)) : Read (List Char)
  | [] => .error .endOfText
  | c :: cs =>
    if c = 'u' then codePoint cs
    else match letterEscape? c with
      | some x => .ok ([x], cs)
      | none => .error .syntaxError

/-- A text up to its closing quote; `fuel` is at least the number of characters left. -/
def readTextWithin (codePoint : Read (List Char)) : Nat → Read (List Char)
  | 0, _ | _, [] => .error .endOfText
  | fuel + 1, c :: cs =>
    if c = '"' then .ok ([], cs)
    else if c = '\\' then do
      let (x, cs) ← readEscape codePoint cs
      let (xs, cs) ← readTextWithin codePoint fuel cs
      return (x ++ xs, cs)
    else if c.toNat < 32 then .error .syntaxError
    else do
      let (xs, cs) ← readTextWithin codePoint fuel cs
      return (c :: xs, cs)

/-- A text after its opening quote. -/
def readText : Read (List Char) := fun cs => readTextWithin readCodePoint cs.length cs

def skipText : Read Unit := fun cs => do
  let (_, cs) ← readTextWithin skipCodePoint cs.length cs
  return ((), cs)

/-! ## Numbers -/

/-- A number that fits into 64 bits, or any other number. -/
inductive Number where
  | natural (value : Nat)
  | other
deriving DecidableEq

def maxNatural : Nat := 18446744073709551615

def digitValue (c : Char) : Nat := c.toNat - '0'.toNat

/-- Digits are taken up as long as their value fits into 64 bits; gives the value and how many
digits were taken up. -/
def absorb (value count : Nat) : List Char → Nat × Nat
  | [] => (value, count)
  | c :: cs =>
    let next := 10 * value + digitValue c
    if maxNatural < next then (value, count) else absorb next (count + 1) cs

/-- The nearest number with at most 53 significant binary digits, the even one of two. -/
def roundTo53 (n : Nat) : Nat :=
  let shift := n.log2 + 1 - 53
  let unit := Nat.pow 2 shift
  let low := n / unit
  let rest := n % unit
  let up := unit < 2 * rest || (unit = 2 * rest && low % 2 = 1)
  if up then (low + 1) * unit else low * unit

/-- Whether `value * 10 ^ exponent`, rounded in each step, is beyond the floating-point numbers of
64 bits. -/
def isOutOfRange (value : Nat) (exponent : Int) : Bool :=
  0 < value && 0 ≤ exponent &&
    (308 < exponent ||
      Nat.pow 2 1024 - Nat.pow 2 970 ≤
        roundTo53 value * roundTo53 (Nat.pow 10 exponent.toNat))

/-- A number that is not a plain sequence of digits, if it is in range. -/
def otherNumber (value : Nat) (exponent : Int) (cs : List Char) :
    Except Problem (Number × List Char) :=
  if isOutOfRange value exponent then .error .syntaxError else .ok (.other, cs)

/-- The exponent of a number after its letter. -/
def readExponent (value : Nat) (exponent : Int) : Read Number := fun cs =>
  let (isNegative, cs) := match cs with
    | '+' :: cs => (false, cs)
    | '-' :: cs => (true, cs)
    | cs => (false, cs)
  match cs with
  | [] => .error .endOfText
  | c :: rest =>
    if !c.isDigit then .error .syntaxError
    else
      let n := (cs.takeWhile Char.isDigit).foldl (fun n c => 10 * n + digitValue c) 0
      let after := rest.dropWhile Char.isDigit
      if 2147483647 < n then
        if value ≠ 0 && !isNegative then .error .syntaxError else .ok (.other, after)
      else otherNumber value (if isNegative then exponent - n else exponent + n) after

def isExponentMark (c : Char) : Bool := c = 'e' || c = 'E'

/-- The digits of a number after its point. -/
def readFraction (value : Nat) (exponent : Int) : Read Number := fun cs =>
  let ds := cs.takeWhile Char.isDigit
  let after := cs.dropWhile Char.isDigit
  if ds.isEmpty then .error (if after.isEmpty then .endOfText else .syntaxError)
  else
    let (value, count) := absorb value 0 ds
    let exponent := exponent - count
    match after with
    | c :: rest =>
      if isExponentMark c then readExponent value exponent rest else otherNumber value exponent after
    | [] => otherNumber value exponent []

/-- A number after its sign. -/
def readNumber (isNegative : Bool) : Read Number
  | [] => .error .endOfText
  | c :: cs =>
    if !c.isDigit then .error .syntaxError
    else
      let more := cs.takeWhile Char.isDigit
      if c = '0' && !more.isEmpty then .error .syntaxError
      else
        let (value, count) := absorb (digitValue c) 0 more
        let exponent : Int := more.length - count
        match cs.dropWhile Char.isDigit with
        | '.' :: rest => readFraction value exponent rest
        | after =>
          match after with
          | e :: rest =>
            if isExponentMark e then readExponent value exponent rest
            else whole value exponent after
          | [] => whole value exponent []
where
  whole (value : Nat) (exponent : Int) (cs : List Char) : Except Problem (Number × List Char) :=
    if exponent ≠ 0 then otherNumber value exponent cs
    else if isNegative then .ok (.other, cs)
    else .ok (.natural value, cs)

/-! ## Values that do not matter -/

def skipExponent (cs : List Char) : Except Problem (Unit × List Char) :=
  let cs := match cs with
    | '+' :: cs | '-' :: cs => cs
    | cs => cs
  match cs with
  | c :: rest => if c.isDigit then .ok ((), rest.dropWhile Char.isDigit) else .error .syntaxError
  | [] => .error .syntaxError

/-- The end of a number after its whole part. -/
def skipNumberEnd : Read Unit
  | [] => .ok ((), [])
  | c :: cs =>
    if c = '.' then
      match cs.takeWhile Char.isDigit, cs.dropWhile Char.isDigit with
      | [], _ => .error .syntaxError
      | _, [] => .ok ((), [])
      | _, e :: rest => if isExponentMark e then skipExponent rest else .ok ((), e :: rest)
    else if isExponentMark c then skipExponent cs
    else .ok ((), c :: cs)

/-- A number after its sign. One that is cut short is not JSON. -/
def skipNumber : Read Unit
  | [] => .error .syntaxError
  | c :: cs =>
    if !c.isDigit then .error .syntaxError
    else if c = '0' then
      if (cs.head?.any Char.isDigit) then .error .syntaxError else skipNumberEnd cs
    else skipNumberEnd (cs.dropWhile Char.isDigit)

mutual

/-- Any value; `fuel` is at least twice the number of characters left. -/
def skipValueWithin : Nat → Read Unit
  | 0, _ => .error .endOfText
  | fuel + 1, cs =>
    match skipBlanks cs with
    | [] => .error .endOfText
    | c :: rest =>
      if c = 'n' then readWord ['u', 'l', 'l'] rest
      else if c = 't' then readWord ['r', 'u', 'e'] rest
      else if c = 'f' then readWord ['a', 'l', 's', 'e'] rest
      else if c = '-' then skipNumber rest
      else if c.isDigit then skipNumber (c :: rest)
      else if c = '"' then skipText rest
      else if c = '[' then
        match skipBlanks rest with
        | ']' :: after => .ok ((), after)
        | after => skipElements fuel after
      else if c = '{' then
        match skipBlanks rest with
        | '}' :: after => .ok ((), after)
        | after => skipMembers fuel after
      else .error .syntaxError

/-- The elements of an array that is not empty. -/
def skipElements : Nat → Read Unit
  | 0, _ | _, [] => .error .endOfText
  | fuel + 1, cs => do
    let ((), cs) ← skipValueWithin fuel cs
    match skipBlanks cs with
    | [] => .error .endOfText
    | c :: rest =>
      if c = ']' then return ((), rest)
      else if c = ',' then skipElements fuel rest
      else .error .syntaxError

/-- The members of an object that is not empty. -/
def skipMembers : Nat → Read Unit
  | 0, _ | _, [] => .error .endOfText
  | fuel + 1, q :: cs => do
    if q ≠ '"' then .error .syntaxError
    let ((), cs) ← skipText cs
    match skipBlanks cs with
    | [] => .error .endOfText
    | c :: rest =>
      if c ≠ ':' then .error .syntaxError
      let ((), cs) ← skipValueWithin fuel rest
      match skipBlanks cs with
      | [] => .error .endOfText
      | c :: rest =>
        if c = '}' then return ((), rest)
        else if c = ',' then skipMembers fuel (skipBlanks rest)
        else .error .syntaxError

end

def skipValue : Read Unit := fun cs => skipValueWithin (2 * cs.length + 2) cs

/-! ## Wanted values -/

/-- The problem with a value that is not of the wanted kind: a number, a text or a word is read to
its end first. -/
def wrongShape : List Char → Problem
  | [] => .endOfText
  | c :: cs =>
    if c = 'n' then ofRead (readWord ['u', 'l', 'l'] cs)
    else if c = 't' then ofRead (readWord ['r', 'u', 'e'] cs)
    else if c = 'f' then ofRead (readWord ['a', 'l', 's', 'e'] cs)
    else if c = '-' then ofRead (readNumber true cs)
    else if c.isDigit then ofRead (readNumber false (c :: cs))
    else if c = '"' then ofRead (readText cs)
    else if c = '[' || c = '{' then .wrongData
    else .syntaxError
where
  ofRead {α : Type} : Except Problem (α × List Char) → Problem
    | .ok _ => .wrongData
    | .error e => e

def readBool : Read Bool := fun cs =>
  match skipBlanks cs with
  | 't' :: rest => do
    let ((), rest) ← readWord ['r', 'u', 'e'] rest
    return (true, rest)
  | 'f' :: rest => do
    let ((), rest) ← readWord ['a', 'l', 's', 'e'] rest
    return (false, rest)
  | other => .error (wrongShape other)

/-- A number without a sign that fits into 64 bits. -/
def readNatural : Read Nat := fun cs =>
  match skipBlanks cs with
  | c :: rest =>
    if c.isDigit then do
      match ← readNumber false (c :: rest) with
      | (.natural n, rest) => return (n, rest)
      | (.other, _) => .error .wrongData
    else .error (wrongShape (c :: rest))
  | [] => .error .endOfText

def readString : Read String := fun cs =>
  match skipBlanks cs with
  | '"' :: rest => do
    let (xs, rest) ← readText rest
    return (.ofList xs, rest)
  | other => .error (wrongShape other)

def readOptional {α : Type} (read : Read α) : Read (Option α) := fun cs =>
  match skipBlanks cs with
  | 'n' :: rest => do
    let ((), rest) ← readWord ['u', 'l', 'l'] rest
    return (none, rest)
  | other => do
    let (a, rest) ← read other
    return (some a, rest)

/-- The colon between a key and its value. -/
def readColon : Read Unit := fun cs =>
  match skipBlanks cs with
  | [] => .error .endOfText
  | c :: rest => if c = ':' then .ok ((), rest) else .error .syntaxError

/-- The next element of an array, if there is one; the closing bracket is left. -/
def readElement {α : Type} (isFirst : Bool) (read : Read α) : Read (Option α) := fun cs =>
  match skipBlanks cs with
  | [] => .error .endOfText
  | c :: rest =>
    if c = ']' then .ok (none, c :: rest)
    else if isFirst then present <$> read (c :: rest)
    else if c = ',' then
      match skipBlanks rest with
      | [] => .error .endOfText
      | d :: rest => if d = ']' then .error .syntaxError else present <$> read (d :: rest)
    else .error .syntaxError
where
  present : α × List Char → Option α × List Char
    | (a, rest) => (some a, rest)

/-- The key of the next member of an object, if there is one; the closing brace is left. -/
def readKey (isFirst : Bool) : Read (Option String) := fun cs =>
  match skipBlanks cs with
  | [] => .error .endOfText
  | c :: rest =>
    if c = '}' then .ok (none, c :: rest)
    else if isFirst then quoted (c :: rest)
    else if c = ',' then quoted (skipBlanks rest)
    else .error .syntaxError
where
  quoted : Read (Option String)
    | [] => .error .endOfText
    | c :: rest =>
      if c = '"' then do
        let (xs, rest) ← readText rest
        return (some (.ofList xs), rest)
      else .error .syntaxError

/-- The bracket or brace that closes an array or object. -/
def readClose (close : Char) : Read Unit := fun cs =>
  match skipBlanks cs with
  | [] => .error .endOfText
  | c :: rest => if c = close then .ok ((), rest) else .error .syntaxError

/-- Nothing but blanks is left. -/
def readEnd (cs : List Char) : Except Problem Unit :=
  if (skipBlanks cs).isEmpty then .ok () else .error .syntaxError

end Json

end Unbox
