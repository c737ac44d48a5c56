/-!
# Names: every text once, referred to by a symbol

* `Names` : the texts in order of first occurrence;
* `Names.intern` : the symbol of a text, added at the end if it is new;
* `Names.symbol?`, `Names.text?` : from text to symbol and back;
* `Names.Indexed` : names with an index, which is looked up in place of the texts.
-/

namespace Unbox

/-- The position of a text among the names. -/
structure Symbol where
  index : Nat
deriving DecidableEq

/-- Texts in the order in which they were first seen. -/
structure Names where
  texts : Array String := #[]

namespace Names

def size (n : Names) : Nat := n.texts.size

def isEmpty (n : Names) : Bool := n.texts.isEmpty

def text? (n : Names) (y : Symbol) : Option String := n.texts[y.index]?

/-- The text of a symbol for display; a symbol of other names is shown as `<unknown>`. -/
def text (n : Names) (y : Symbol) : String := (n.text? y).getD "<unknown>"

def symbol? (n : Names) (s : String) : Option Symbol := (n.texts.toList.idxOf? s).map .mk

def contains (n : Names) (s : String) : Bool := (n.symbol? s).isSome

/-- The symbol of `s`, with `s` added at the end if it is new. -/
def intern (n : Names) (s : String) : Symbol × Names :=
  match n.symbol? s with
  | some y => (y, n)
  | none => (⟨n.size⟩, ⟨n.texts.push s⟩)

/-- Names with an index of the symbols that were handed out. -/
structure Indexed where
  names : Names := {}
  index : String → Option Symbol := fun _ => none

/-- Looks the text up in the index, and adds it to the names and to the index if it is not there. -/
def Indexed.intern (t : Indexed) (s : String) : Symbol × Indexed :=
  match t.index s with
  | some y => (y, t)
  | none => (⟨t.names.size⟩,
      { names := ⟨t.names.texts.push s⟩
        index := fun u => if u = s then some ⟨t.names.size⟩ else t.index u })

end Names

end Unbox
