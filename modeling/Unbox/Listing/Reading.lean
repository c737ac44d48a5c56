import Unbox.Listing
import Unbox.Reading
import Unbox.Report

/-!
# Listings of findings

* `Target.declarationReading`, `Program.expressionReading` : what a code generator reads off a
  declaration and off an expression;
* `Flags.letters` : flags as the letters of those that are set;
* `Parameter.outline` : the parameters of a tree by number.
-/

namespace Unbox

instance : Listing Strategy where
  listing
    | .unboxed => .string "Unboxed"
    | .boxed => .string "Boxed"

/-- The letters of the flags that are set: `u` unboxed, `e` type erased, `r` raw, `t` untrusted. -/
def Flags.letters (f : Flags) : String :=
  let letters := [('u', f.unboxed), ('e', f.typeErased), ('r', f.raw), ('t', f.untrusted)]
  .ofList ((letters.filter Prod.snd).map Prod.fst)

instance : Listing Flags := ⟨fun f => .string f.letters⟩

instance : Listing Record where
  listing r :=
    .array
      [listing r.id, listing r.location.line, listing r.location.column, listing r.flags]

/-- Flags with the strategy that follows from them. -/
def Flags.reading (f : Flags) : Json :=
  .object
    [("unboxed", listing f.unboxed), ("raw", listing f.raw), ("erased", listing f.typeErased),
      ("untrusted", listing f.untrusted), ("strategy", listing (Strategy.of f.unboxed))]

/-- What is read off a declaration. -/
def Target.declarationReading (t : Target) (m : Marks) (d : DeclId) : Except Failure Json := do
  let { program := p, policy } := t
  let x ← p.decl d .unknown
  let flags : Flags := ⟨m.isUnboxed d, m.typeErased d, x.isRaw m, m.isUntrusted d⟩
  return .object
    [("annotated", flags.reading), ("void", listing (policy.isVoid p x.type)),
      ("unboxed_void", listing (policy.isUnboxedVoid p d)),
      ("parameterized", listing (p.parameterized d x)),
      ("in_functional_parameter", listing (p.inFunctionalParameter x))]

/-- What is read off an expression. -/
def Program.expressionReading (p : Program) (m : Marks) (e : Expr) : Json :=
  .object
    [("id", listing e.id), ("type", listing e.type), ("location", listing e.location),
      ("flags", listing e.flags), ("annotated", { e.flags with raw := e.isRaw m }.reading),
      ("literal", listing e.isLiteral), ("member", listing e.referenced),
      ("unwrapped", listing e.unwrap.id), ("direct_access", listing (p.isDirectlyReadable e)),
      ("optimise_specifier", listing (p.isMethodBody e))]

mutual

/-- A parameter with its own parameters, if it has any. -/
def Parameter.outline : Parameter → Json
  | value d _ => .array [listing d, .null]
  | functional d _ lists => .array [listing d, .array (Parameter.outlineLists lists)]

def Parameter.outlineLists : List (List Parameter) → List Json
  | [] => []
  | qs :: lists => .array (Parameter.outlineList qs) :: Parameter.outlineLists lists

def Parameter.outlineList : List Parameter → List Json
  | [] => []
  | q :: qs => q.outline :: Parameter.outlineList qs

end

end Unbox
