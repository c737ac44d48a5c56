import Unbox.Program
import Unbox.Proofs.Parts

/-!
# Closed programs and units

* `Program.Closed` : what the declarations of a program point at is in its table;
* `Part.Closed p`, `SourceUnit.Closed p` : so is what the parts of a tree mention, their types are
  in the table of types, and its parameters are parameters of something.
-/

namespace Unbox

/-- The parameter of a setter. -/
def Declaration.setterParameter? (x : Declaration) : Option DeclId :=
  match x.kind with
  | .setter parameter => some parameter
  | _ => none

/-- The declarations that `x` points at: the one that its scope is, the one that it refines and its
parameters. -/
def Declaration.pointers (x : Declaration) : List DeclId :=
  x.scope.declaration?.toList ++ x.refined.toList ++ x.parameterLists.flatten

/-- What the declarations point at is in the table. -/
def Program.Closed (p : Program) : Prop := ∀ x ∈ p.decls, ∀ d ∈ x.pointers, p.hasDecl d = true

instance (p : Program) : Decidable p.Closed :=
  inferInstanceAs (Decidable (∀ x ∈ p.decls, ∀ d ∈ x.pointers, p.hasDecl d = true))

namespace Part

/-- The declarations that a part mentions, leaving out what stands in it. A declared setter mentions
its parameter, a call what is called, a specification what is specified, and a comprehension the
variables of its conditions. -/
def mentioned (p : Program) : Part → List DeclId
  | .expr (.mk _ (.base d _)) | .expr (.mk _ (.member _ d _ _)) | .expr (.mk _ (.constructor d))
  | .expr (.mk _ (.function d _ _)) => d.toList
  | .expr (.mk _ (.typeLiteral (.declaration d))) => [d]
  | .expr (.mk _ (.call primary _)) | .expr (.mk _ (.callNamed primary _)) =>
    primary.unwrap.referenced.toList
  | .argument (.attribute d _) | .argument (.method d _ _) => [d]
  | .condition c => c.variable?.toList
  | .binding (.mk d _) => [d]
  | .clause (.forIn pattern _ _) | .stmt (.forIn pattern _ _ _) => pattern.variables
  | .clause (.onlyIf cs _) => cs.filterMap Condition.variable?
  | .parameter r => [r.declaration]
  | .stmt (.declare head _ _) =>
    head.declaration :: head.typeParameters ++
      (p.decl? head.declaration >>= Declaration.setterParameter?).toList
  | .stmt (.specify target _ _) => target.referenced.toList
  | _ => []

def parameter? : Part → Option Parameter
  | .parameter r => some r
  | _ => none

/-- What the part mentions is in the table, and so is the type of an expression; what is written as
a parameter is a parameter of a declaration or of a specification. -/
structure Closed (p : Program) (q : Part) : Prop where
  mentioned : ∀ d ∈ q.mentioned p, p.hasDecl d = true
  type : ∀ e ∈ q.expr?, ∀ a ∈ e.type, p.hasType a = true
  parameter : ∀ r ∈ q.parameter?, ∀ x ∈ p.decl? r.declaration,
    x.isParameter = true ∧ x.scope.declaration?.isSome = true

instance (p : Program) (q : Part) : Decidable (q.Closed p) :=
  decidable_of_iff ((∀ d ∈ q.mentioned p, p.hasDecl d = true) ∧
      (∀ e ∈ q.expr?, ∀ a ∈ e.type, p.hasType a = true) ∧
      ∀ r ∈ q.parameter?, ∀ x ∈ p.decl? r.declaration,
        x.isParameter = true ∧ x.scope.declaration?.isSome = true)
    ⟨fun ⟨hm, ht, hp⟩ => ⟨hm, ht, hp⟩, fun ⟨hm, ht, hp⟩ => ⟨hm, ht, hp⟩⟩

theorem Closed.forced {p : Program} {q : Part} (h : q.Closed p) :
    ∀ d ∈ q.forced, p.hasDecl d = true := by
  intro d hd
  refine h.mentioned d ?_
  unfold Part.forced at hd
  split at hd <;> first | exact hd | cases hd

end Part

theorem Part.mentioned_of_referenced {p : Program} {e : Expr} {d : DeclId}
    (h : e.referenced = some d) : d ∈ (Part.expr e).mentioned p := by
  obtain ⟨n, form⟩ := e
  cases form with
  | base | member | constructor => exact Option.mem_toList.mpr h
  | _ => cases h

def SourceUnit.Closed (p : Program) (u : SourceUnit) : Prop := ∀ q ∈ u.parts, q.Closed p

instance (p : Program) (u : SourceUnit) : Decidable (u.Closed p) :=
  inferInstanceAs (Decidable (∀ q ∈ u.parts, q.Closed p))

end Unbox
