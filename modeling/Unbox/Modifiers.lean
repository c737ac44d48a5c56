/-!
# Modifiers of a declaration

* `Modifier` : the words that matter for the representation of a declaration;
* `Modifiers` : a set of them, with `insert`, `remove`, `union`, and `meets`, which asks for a
  common member;
* `Modifiers.toList` : the members in the order of `Modifier.all`.
-/

namespace Unbox

inductive Modifier where
  | shared
  | mutable
  | parameter
  | toplevel
  | actual
  | formal
  | overridable
  /-- A class that only renames another one. -/
  | synonym
  /-- Used by a declaration nested in the scope of this one. -/
  | captured
  /-- A value known to fit the narrow integer representation. -/
  | small
  /-- A method that a specification statement introduces to refine an inherited one. -/
  | shortcutRefinement
  | functionArgument
deriving DecidableEq

def Modifier.all : List Modifier :=
  [.shared, .mutable, .parameter, .toplevel, .actual, .formal, .overridable, .synonym, .captured,
    .small, .shortcutRefinement, .functionArgument]

namespace Modifier

/-- The name of a modifier in listings. -/
def name : Modifier → String
  | shared => "SHARED"
  | mutable => "VARIABLE"
  | parameter => "PARAMETER"
  | toplevel => "TOPLEVEL"
  | actual => "ACTUAL"
  | formal => "FORMAL"
  | overridable => "DEFAULT"
  | synonym => "ALIAS"
  | captured => "CAPTURED"
  | small => "SMALL"
  | shortcutRefinement => "SHORTCUT_REFINEMENT"
  | functionArgument => "FUNCTION_ARGUMENT"

def ofName? (name : String) : Option Modifier := all.find? fun m => m.name == name

end Modifier

/-- A set of modifiers. -/
structure Modifiers where
  members : List Modifier := []

namespace Modifiers

def empty : Modifiers := {}

def has (s : Modifiers) (m : Modifier) : Bool := s.members.contains m

def isEmpty (s : Modifiers) : Bool := s.members.isEmpty

def insert (s : Modifiers) (m : Modifier) : Modifiers :=
  if s.has m then s else ⟨m :: s.members⟩

def ofList (ms : List Modifier) : Modifiers := ms.foldl insert empty

def union (s t : Modifiers) : Modifiers := t.members.foldl insert s

/-- The members of `s` that are not in `t`. -/
def remove (s t : Modifiers) : Modifiers := ⟨s.members.filter fun m => !t.has m⟩

/-- Some modifier is in both sets. -/
def meets (s t : Modifiers) : Bool := s.members.any t.has

def toList (s : Modifiers) : List Modifier := Modifier.all.filter s.has

@[simp] theorem has_empty (m : Modifier) : empty.has m = false := rfl

theorem has_insert {s : Modifiers} {a m : Modifier} :
    (s.insert a).has m = true ↔ m = a ∨ s.has m = true := by
  unfold insert
  split
  · next h => exact ⟨Or.inr, fun h' => h'.elim (fun e => e ▸ h) id⟩
  · simp [has]

theorem has_remove {s t : Modifiers} {m : Modifier} :
    (s.remove t).has m = true ↔ s.has m = true ∧ t.has m = false := by
  simp [has, remove]

end Modifiers

end Unbox
