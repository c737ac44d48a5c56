import Unbox.Column
import Unbox.Type

/-!
# Marks: what the analyses find out

* `DeclarationMarks`, `TypeMarks` : the findings about one declaration, about one type reference;
* `BoundMarks` : what is known about the bounds of type parameters;
* `Marks` : all of them;
* `Marks.setUnboxed` decides a declaration once, `Marks.forceBoxed` overrules a decision.
-/

namespace Unbox

/-- Findings about a declaration. -/
structure DeclarationMarks where
  /-- Absent until decided; an undecided declaration is read as boxed. -/
  unboxed : Option Bool := none
  typeErased : Bool := false
  untrusted : Option Bool := none
deriving DecidableEq, Inhabited

/-- Findings about one use of a type. -/
structure TypeMarks where
  /-- The generic type has to be handled without its type arguments. -/
  raw : Bool := false
  underlying : Option MachineType := none
deriving DecidableEq, Inhabited

/-- What is known about the bounds of type parameters. -/
structure BoundMarks where
  /-- Whether some bound is known not to erase to the top type. -/
  known : Column .declaration (Option Bool) := {}
  /-- History variable: what was asked so far, with the answers, latest first. -/
  asked : List (DeclId × Bool) := []

namespace BoundMarks
variable (b : BoundMarks)

def get (d : DeclId) : Option Bool := b.known.get d

def set (d : DeclId) (answer : Option Bool) : BoundMarks := { b with known := b.known.set d answer }

/-- The question about `d` was answered. -/
def note (d : DeclId) (answer : Bool) : BoundMarks := { b with asked := (d, answer) :: b.asked }

theorem get_set (d e : DeclId) (answer : Option Bool) :
    (b.set d answer).get e = if e = d then answer else b.get e :=
  Column.get_set ..

theorem set_set (d : DeclId) (answer answer' : Option Bool) :
    (b.set d answer).set d answer' = b.set d answer' :=
  congrArg (fun known => { b with known }) (Column.set_set ..)

@[simp] theorem get_note (d e : DeclId) (answer : Bool) : (b.note d answer).get e = b.get e := rfl

end BoundMarks

structure Marks where
  declarations : Column .declaration DeclarationMarks := {}
  bounds : BoundMarks := {}
  types : Column .type TypeMarks := {}

namespace Marks
variable (m : Marks)

/-! ## Reading -/

def unboxed (d : DeclId) : Option Bool := (m.declarations.get d).unboxed
def typeErased (d : DeclId) : Bool := (m.declarations.get d).typeErased
def untrusted (d : DeclId) : Option Bool := (m.declarations.get d).untrusted
def raw (t : TypeId) : Bool := (m.types.get t).raw
def underlying (t : TypeId) : Option MachineType := (m.types.get t).underlying

def isUnboxed (d : DeclId) : Bool := m.unboxed d == some true
def isUntrusted (d : DeclId) : Bool := m.untrusted d == some true

/-! ## Writing -/

def updateDeclaration (d : DeclId) (f : DeclarationMarks → DeclarationMarks) : Marks :=
  { m with declarations := m.declarations.update d f }

def updateType (t : TypeId) (f : TypeMarks → TypeMarks) : Marks :=
  { m with types := m.types.update t f }

/-- Decides a declaration unless it is decided already. -/
def setUnboxed (d : DeclId) (b : Bool) : Marks :=
  if (m.unboxed d).isNone then m.updateDeclaration d fun x => { x with unboxed := some b } else m

/-- Boxed, whatever was decided before. -/
def forceBoxed (d : DeclId) : Marks := m.updateDeclaration d fun x => { x with unboxed := some false }

def markErased (d : DeclId) : Marks := m.updateDeclaration d fun x => { x with typeErased := true }

def markUntrusted (d : DeclId) : Marks :=
  m.updateDeclaration d fun x => { x with untrusted := some true }

def setRaw (t : TypeId) (b : Bool) : Marks := m.updateType t fun x => { x with raw := b }

def setUnderlying (t : TypeId) (u : Option MachineType) : Marks :=
  m.updateType t fun x => { x with underlying := u }

theorem unboxed_setUnboxed (d e : DeclId) (b : Bool) :
    (m.setUnboxed d b).unboxed e =
      if e = d then some ((m.unboxed d).getD b) else m.unboxed e := by
  unfold setUnboxed
  split
  · next h =>
    simp only [unboxed, updateDeclaration, Column.get_update]
    split
    · simp only [unboxed, Option.isNone_iff_eq_none] at h; simp [h]
    · rfl
  · next h =>
    split
    · next he =>
      subst he
      obtain ⟨x, hx⟩ := Option.ne_none_iff_exists'.mp (by simpa using h)
      simp [hx]
    · rfl

theorem unboxed_forceBoxed (d e : DeclId) :
    (m.forceBoxed d).unboxed e = if e = d then some false else m.unboxed e := by
  simp only [unboxed, forceBoxed, updateDeclaration, Column.get_update]
  split <;> rfl

end Marks

end Unbox
