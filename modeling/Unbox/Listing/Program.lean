import Unbox.Listing
import Unbox.Policy
import Unbox.TypeGraph

/-!
# Listings of a program

* `Program.declarationListing`, `Program.typeListing` : what a program says about a declaration and
  about a type reference;
* `Target.declarationAnswers`, `Target.typeAnswers` : what a policy says about them;
* `Marks.differing` : all marks that differ from the default.
-/

namespace Unbox

instance : Listing Scope where
  listing
    | .unit => .string "unit"
    | .declaration d => .object [("decl", listing d)]
    | .specification d => .object [("spec", listing d)]
    | .block d => .object [("block", listing d)]

instance : Listing Erased where
  listing
    | .primitive d => .array [.string "Primitive", listing d]
    | .reference d => .array [.string "Class", listing d]
    | .object => .array [.string "Object"]

/-- What holds of a declaration by itself. -/
def Declaration.facts (x : Declaration) : Json :=
  holding
    [("shared", x.isShared), ("actual", x.isActual), ("formal", x.isFormal),
      ("parameter", x.isParameter), ("variable", x.isMutable), ("toplevel", x.isToplevel),
      ("alias", x.isAlias), ("captured", x.isCaptured), ("small", x.isSmall),
      ("shortcut_refinement", x.isShortcutRefinement), ("method", x.isMethod),
      ("value", x.isValue), ("class", x.isClass), ("interface", x.isInterface),
      ("class_or_interface", x.isClassOrInterface), ("type_parameter", x.isTypeParameter),
      ("functional_parameter", x.isFunctionalParameter), ("value_parameter", x.isValueParameter),
      ("functional", x.isFunctional), ("mpl", x.hasSeveralLists)]

namespace Program
variable (p : Program)

def declarationListing (d : DeclId) : Json :=
  .object <|
    [("name", listing (p.nameOf d)), ("qualified", listing (p.qualifiedName d)),
      ("extended_class", listing (p.extendedClass? d)), ("contains", listing (p.hasDecl d))] ++
    match p.decl d .unknown with
    | .error e => [("lookup", listing e)]
    | .ok x =>
      [("kind", listing x.kindName), ("container", listing x.scope),
        ("container_declaration", listing x.scope.declaration?),
        ("container_owner", listing x.scope.owner?), ("type", listing x.type),
        ("refined", listing x.refined), ("flags", listing x.modifiers),
        ("type_parameters", listing x.typeParameters), ("lists", listing x.parameterLists),
        ("members", listing x.members), ("satisfied", listing x.satisfied),
        ("extended", listing x.extended), ("location", listing x.location), ("is", x.facts)]

def typeListing (m : Marks) (t : TypeId) : Json :=
  .object <| ("id", listing t) ::
    match p.form? t with
    | none => [("lookup", listing (Failure.unknownType t .unknown))]
    | some form =>
      [("kind", listing form.kindName), ("declaration", listing form.declaration?),
        ("declaration_name", listing ((form.declaration?.filter p.hasDecl).map p.nameOf)),
        ("args", listing form.arguments), ("is_type_parameter", listing form.isTypeParameter),
        ("is_error", listing form.isError), ("nested", listing (p.nested t)),
        ("contains_type_parameter", listing (p.mentionsTypeParameter t)),
        ("raw", listing (m.raw t)), ("underlying", listing (m.underlying t))]

end Program

namespace Target
variable (t : Target)

/-- What the policy says about a type. -/
def typeAnswers (x : TypeId) : StateM BoundMarks Json := do
  let { program := p, policy } := t
  let substitutes ← policy.substitutesBound p x
  return .object
    [("is", holding
        [("basic", policy.isBasic p x), ("null", policy.isNull p x),
          ("object", policy.isObject p x), ("anything", policy.isAnything p x),
          ("callable", policy.isCallable p x), ("optional", policy.isOptional p x),
          ("iterable_root", policy.isIterableRoot p x), ("has_erasure", policy.hasErasure p x),
          ("erases_to_object", policy.erasesToObject p x), ("raw", policy.isRaw p x),
          ("substituted_bounds", substitutes), ("void", policy.isVoid p (some x))]),
      ("erased", listing (policy.erased p x))]

/-- What the policy says about a declaration. -/
def declarationAnswers (d : DeclId) : StateM BoundMarks Json := do
  let { program := p, policy } := t
  let keeps ← policy.keepsBound p d
  return holding
    [("widening", policy.isWidening p d), ("boxed_void", policy.boxesVoid p d),
      ("creates_method", policy.createsMethod p d), ("true", policy.isTrue p d),
      ("false", policy.isFalse p d), ("non_erased_bounds", keeps),
      ("basic_class", p.core.isBasicClass d), ("numeric_class", p.core.isNumericClass d),
      ("top_class", p.core.isTopClass d)]

end Target

namespace Marks
variable (m : Marks)

/-- The marks of a declaration, unless they are the default. -/
def declarationListing? (d : DeclId) : Option Json :=
  if m.declarations.get d = default && (m.bounds.get d).isNone then none
  else some <| .array
    [listing d, listing (m.unboxed d), listing (m.typeErased d), listing (m.untrusted d),
      listing (m.bounds.get d)]

/-- The marks of a type reference, unless they are the default. -/
def typeListing? (t : TypeId) : Option Json :=
  if m.types.get t = default then none
  else some (.array [listing t, listing (m.raw t), listing (m.underlying t)])

/-- All marks that differ from the default, by id. -/
def differing (p : Program) : Json :=
  .object
    [("decls", listing ((List.range p.decls.size).filterMap fun i => m.declarationListing? ⟨i⟩)),
      ("types", listing ((List.range p.types.size).filterMap fun i => m.typeListing? ⟨i⟩))]

end Marks

end Unbox
