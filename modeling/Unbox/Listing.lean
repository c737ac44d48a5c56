import Unbox.Diagnostic
import Unbox.Failure
import Unbox.Json
import Unbox.Modifiers
import Unbox.Type

/-!
# Listings: values as JSON

`Listing α` gives the values of `α` a JSON form. Ids are listed by number, an option as null or as
its value, a pair as an array of two, a location as an array of its four numbers.
-/

namespace Unbox

class Listing (α : Type) where
  /-- The JSON form of a value. -/
  listing : α → Json

export Listing (listing)

section
variable {α β : Type} [Listing α] [Listing β]

instance : Listing Json := ⟨id⟩
instance : Listing Bool := ⟨.bool⟩
instance : Listing Nat := ⟨.natural⟩
instance : Listing String := ⟨.string⟩
instance : Listing Unit := ⟨fun _ => .null⟩

instance : Listing (Option α) where
  listing
    | some a => listing a
    | none => .null

instance : Listing (List α) := ⟨fun as => .array (as.map listing)⟩

instance : Listing (α × β) := ⟨fun (a, b) => .array [listing a, listing b]⟩

end

/-- The names of the facts that hold. -/
def holding (facts : List (String × Bool)) : Json :=
  listing ((facts.filter Prod.snd).map Prod.fst)

/-! ## Names and places -/

instance {e : Entity} : Listing (Id e) := ⟨fun i => .natural i.index⟩
instance : Listing FileId := ⟨fun f => .natural f.index⟩
instance : Listing Modifiers := ⟨fun ms => listing (ms.toList.map Modifier.name)⟩
instance : Listing MachineType := ⟨fun u => .string u.text⟩
instance : Listing Location := ⟨fun l => listing [l.file, l.line, l.column, l.offset]⟩
instance : Listing Position := ⟨fun p => listing [p.line, p.column, p.offset]⟩

instance : Listing Span where
  listing s :=
    .object [("start", listing s.start), ("end", listing s.stop), ("file", listing s.file)]

/-! ## Problems -/

instance : Listing Code where
  listing c :=
    .object
      [("code", listing c.number), ("category", listing c.category),
        ("description", listing c.description), ("help", listing c.help),
        ("formatted", listing (Code.format c.number)), ("display", listing c.text)]

instance : Listing Failure where
  listing e :=
    .object
      [("error", listing e.kindName), ("message", listing e.message),
        ("location", listing e.location), ("code", listing (Code.format e.code.number))]

instance {α : Type} [Listing α] : Listing (Except Failure α) where
  listing
    | .ok a => listing a
    | .error e => listing e

instance : Listing Label where
  listing l :=
    .object
      [("span", listing l.span), ("message", listing l.message), ("style", listing l.style.text)]

instance : Listing Diagnostic where
  listing d :=
    .object
      [("severity", listing d.severity.text), ("code", listing d.code),
        ("message", listing d.message), ("span", listing d.span), ("labels", listing d.labels),
        ("notes", listing d.notes), ("help", listing d.help), ("is_error", listing d.isError)]

end Unbox
