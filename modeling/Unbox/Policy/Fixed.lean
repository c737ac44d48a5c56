import Unbox.Policy

/-!
# Policies with fixed answers

A target that differs from another one in the answer to a single question, whatever the type or the
declaration.
-/

namespace Unbox

/-- The questions of a policy whose answer is a truth value. -/
inductive Question where
  | isBasic
  | isNull
  | isObject
  | isAnything
  | isCallable
  | isOptional
  | isIterableRoot
  | hasErasure
  | erasesToObject
  | isRaw
  | isWidening
  | substitutesBound
  | boxesVoid
  | createsMethod
  | isTrue
  | isFalse
deriving DecidableEq

namespace Question

def all : List Question :=
  [isBasic, isNull, isObject, isAnything, isCallable, isOptional, isIterableRoot, hasErasure,
    erasesToObject, isRaw, isWidening, substitutesBound, boxesVoid, createsMethod, isTrue, isFalse]

/-- The name of a question in listings. -/
def name : Question → String
  | isBasic => "is_basic_type"
  | isNull => "is_null"
  | isObject => "is_object"
  | isAnything => "is_anything"
  | isCallable => "is_callable"
  | isOptional => "is_optional"
  | isIterableRoot => "is_iterable_root"
  | hasErasure => "has_erasure"
  | erasesToObject => "will_erase_to_object"
  | isRaw => "is_raw"
  | isWidening => "is_widening_typed_declaration"
  | substitutesBound => "has_substituted_bounds"
  | boxesVoid => "uses_boxed_void"
  | createsMethod => "creates_method"
  | isTrue => "is_boolean_true"
  | isFalse => "is_boolean_false"

def ofName? (name : String) : Option Question := all.find? fun q => q.name == name

end Question

namespace Policy
variable (policy : Policy)

/-- The policy with one answer fixed. -/
def fixing (b : Bool) : Question → Policy
  | .isBasic => { policy with isBasic := fun _ _ => b }
  | .isNull => { policy with isNull := fun _ _ => b }
  | .isObject => { policy with isObject := fun _ _ => b }
  | .isAnything => { policy with isAnything := fun _ _ => b }
  | .isCallable => { policy with isCallable := fun _ _ => b }
  | .isOptional => { policy with isOptional := fun _ _ => b }
  | .isIterableRoot => { policy with isIterableRoot := fun _ _ => b }
  | .hasErasure => { policy with hasErasure := fun _ _ => b }
  | .erasesToObject => { policy with erasesToObject := fun _ _ => b }
  | .isRaw => { policy with isRaw := fun _ _ => b }
  | .isWidening => { policy with isWidening := fun _ _ => b }
  | .substitutesBound =>
    { policy with substitutesBound := fun _ _ => pure b, recalls := fun _ _ => .pure b }
  | .boxesVoid => { policy with boxesVoid := fun _ _ => b }
  | .createsMethod => { policy with createsMethod := fun _ _ => b }
  | .isTrue => { policy with isTrue := fun _ _ => b }
  | .isFalse => { policy with isFalse := fun _ _ => b }

/-- The policy with every type lowered to the top type. -/
def erasingAll : Policy := { policy with erased := fun _ _ => some .object }

end Policy

end Unbox
