import Unbox.Draft

/-!
# The core declarations of a new draft
-/

namespace Unbox.Build

private def addToplevel (name : String) (kind : Kind) : Build DeclId := do
  let d ← add (some name) kind .unit
  addModifiers d (.ofList [.shared, .toplevel])
  return d

private def coreClass (name : String) (parent : Option DeclId) : Build DeclId := do
  let extended ← match parent with
    | some d => some <$> typeOf d
    | none => pure none
  addToplevel name (.classType { extended })

private def coreTypeParameter (owner : DeclId) (name : String) (variance : Variance) :
    Build DeclId := do
  let d ← add (some name) (.typeParameter { variance }) (.declaration owner)
  edit owner fun x => { x with typeParameters := x.typeParameters ++ [d] }
  return d

private def coreTruth (name : String) (boolean : DeclId) : Build DeclId := do
  let d ← addToplevel name .value
  setType d (← typeOf boolean)
  return d

private def coreParameter (owner type : DeclId) (name : String) : Build DeclId := do
  let d ← add (some name) .value (.declaration owner)
  setType d (← typeOf type)
  addModifier d .parameter
  return d

/-- A shared formal method of an interface, whose parameters all have the same type. -/
private def coreMethod (owner type : DeclId) (name : String) (parameters : List String) :
    Build DeclId := do
  let d ← add (some name) (.method {}) (.declaration owner)
  let list ← parameters.mapM (coreParameter d type)
  addModifiers d (.ofList [.shared, .formal])
  editKind d fun _ => .method { lists := [list] }
  addMember owner d
  return d

/-- Declares what the language itself provides. -/
def declareCore : Build Unit := do
  let anything ← coreClass "Anything" none
  let object ← coreClass "Object" (some anything)
  let null ← coreClass "Null" (some anything)
  let basic ← coreClass "Basic" (some object)
  let boolean ← coreClass "Boolean" (some basic)
  let trueValue ← coreTruth "true" boolean
  let falseValue ← coreTruth "false" boolean
  let integer ← coreClass "Integer" (some object)
  let float ← coreClass "Float" (some object)
  let byte ← coreClass "Byte" (some object)
  let character ← coreClass "Character" (some object)
  let string ← coreClass "String" (some object)
  let callable ← addToplevel "Callable" (.interfaceType {})
  let _ ← coreTypeParameter callable "Return" .covariant
  let _ ← coreTypeParameter callable "Arguments" .contravariant
  let iterable ← addToplevel "Iterable" (.interfaceType {})
  let _ ← coreTypeParameter iterable "Element" .covariant
  let _ ← coreTypeParameter iterable "Absent" .covariant
  let sequential ← addToplevel "Sequential" (.interfaceType {})
  let element ← coreTypeParameter sequential "Element" .covariant
  modifyProgram fun p =>
    { p with
      core :=
        { anything, object, null, basic, boolean, trueValue, falseValue, integer, float, byte,
          character, string, callable, iterable, sequential } }
  let elementUse ← newType (.typeParameter element)
  let nullUse ← typeOf null
  satisfy sequential (← newType (.nominal iterable [elementUse, nullUse]))
  let get ← coreMethod sequential integer "get" ["index"]
  let got ← optional (← newType (.typeParameter element))
  let span ← coreMethod sequential integer "span" ["from", "to"]
  let spanned ← Build.sequential (← newType (.typeParameter element))
  setType get got
  setType span spanned

end Unbox.Build

namespace Unbox

/-- A draft with the core declarations and nothing else. -/
def Draft.new : Draft := (Build.declareCore.run {}).2

end Unbox
