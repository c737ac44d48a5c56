import Unbox.Rules

/-!
# Reading the findings

A code generator reads what the analyses found out and never decides anew.
-/

namespace Unbox

inductive Strategy where
  | unboxed
  | boxed
deriving DecidableEq

def Strategy.of (unboxed : Bool) : Strategy := if unboxed then .unboxed else .boxed

def Declaration.isRaw (x : Declaration) (m : Marks) : Bool := x.type.any m.raw

namespace Program
variable (p : Program)

/-- A local value that can be read without an accessor: it is neither shared nor captured. -/
def isDirectlyReadable (e : Expr) : Bool :=
  match e.form with
  | .base (some d) _ =>
    (p.decl? d).any fun x =>
      x.isValue && !x.isToplevel && !(p.container? x).any Declaration.isClassOrInterface &&
        !x.isCaptured && !x.isShared
  | _ => false

/-- A value specified for a method that can be compiled as its body: a function literal, or a
reference to something that cannot change. -/
def isMethodBody (e : Expr) : Bool :=
  match e.form with
  | .function _ _ _ => true
  | .base d _ | .constructor d =>
    (d >>= p.decl?).any fun x => x.isMethod || x.isClass || x.isValueParameter
  | _ => false

end Program

end Unbox
