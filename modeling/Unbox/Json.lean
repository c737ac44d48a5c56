/-!
# JSON text

* `Json` : the values that are written;
* `Json.render` : a value over several lines, two blanks for each level;
* `Json.quote` : a text between quotes, with what has to be escaped.
-/

namespace Unbox

inductive Json where
  | null
  | bool (value : Bool)
  | natural (value : Nat)
  | string (value : String)
  | array (elements : List Json)
  | object (members : List (String × Json))

namespace Json

def hexDigit (n : Nat) : Char := (Nat.toDigits 16 n).headD '0'

/-- A character as it is written in a text: quotes, backslashes and control characters are
escaped, the rest stands for itself. -/
def escape (c : Char) : List Char :=
  if c = '"' then ['\\', '"']
  else if c = '\\' then ['\\', '\\']
  else if c = '\n' then ['\\', 'n']
  else if c = '\r' then ['\\', 'r']
  else if c = '\t' then ['\\', 't']
  else if c = '\x08' then ['\\', 'b']
  else if c = '\x0c' then ['\\', 'f']
  else if c.toNat < 32 then ['\\', 'u', '0', '0', hexDigit (c.toNat / 16), hexDigit (c.toNat % 16)]
  else [c]

/-- A text between quotes. -/
def quote (cs : List Char) : List Char := '"' :: (cs.flatMap escape ++ ['"'])

def digits (n : Nat) : List Char := Nat.toDigits 10 n

def newline (level : Nat) : List Char := '\n' :: List.replicate (2 * level) ' '

mutual

/-- The text of a value whose first line stands at the given level. -/
def renderAt (level : Nat) : Json → List Char
  | null => "null".toList
  | bool true => "true".toList
  | bool false => "false".toList
  | natural n => digits n
  | string s => quote s.toList
  | array [] => ['[', ']']
  | array (v :: vs) =>
    '[' :: (renderElement level v ++ renderElements level vs ++ newline level ++ [']'])
  | object [] => ['{', '}']
  | object (m :: ms) =>
    '{' :: (renderMember level m ++ renderMembers level ms ++ newline level ++ ['}'])

def renderElement (level : Nat) (value : Json) : List Char :=
  newline (level + 1) ++ renderAt (level + 1) value

def renderElements (level : Nat) : List Json → List Char
  | [] => []
  | v :: vs => ',' :: (renderElement level v ++ renderElements level vs)

def renderMember (level : Nat) : String × Json → List Char
  | (key, value) =>
    newline (level + 1) ++ quote key.toList ++ [':', ' '] ++ renderAt (level + 1) value

def renderMembers (level : Nat) : List (String × Json) → List Char
  | [] => []
  | m :: ms => ',' :: (renderMember level m ++ renderMembers level ms)

end

def render (value : Json) : String := .ofList (value.renderAt 0)

end Json

end Unbox
