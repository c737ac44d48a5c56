import Unbox.Rules

/-!
# Visiting a tree: flags for every expression

Every expression of a tree gets its flags, parts before the whole.

* `Visit` : the marks found so far, the declarations around the current expression, the variables
  bound by comprehensions around it, the counters and the records; and the failure, once there is
  one. From then on nothing changes any more, so a tree that is visited keeps the flags that were
  found before the failure;
* `Target.visit` : an expression with its flags, and likewise for statements and units.
-/

namespace Unbox

structure ExpressionStats where
  visited : Nat := 0
  unboxed : Nat := 0
  typeErased : Nat := 0
  raw : Nat := 0
  untrusted : Nat := 0
  /-- Indexed expressions for which no accessor was found. -/
  unresolvedAccessors : Nat := 0
deriving DecidableEq

def ExpressionStats.add (s : ExpressionStats) (f : Flags) (isUnresolved : Bool) :
    ExpressionStats where
  visited := s.visited + 1
  unboxed := s.unboxed + f.unboxed.toNat
  typeErased := s.typeErased + f.typeErased.toNat
  raw := s.raw + f.raw.toNat
  untrusted := s.untrusted + f.untrusted.toNat
  unresolvedAccessors := s.unresolvedAccessors + isUnresolved.toNat

/-- The flags of one expression, kept for a report. -/
structure Record where
  id : ExprId
  location : Location
  flags : Flags
deriving DecidableEq

structure Visit where
  marks : Marks
  /-- The declarations around the current expression, innermost first. -/
  scopes : List DeclId := []
  /-- The variables bound by the comprehensions around the current expression. -/
  bound : List DeclId := []
  stats : ExpressionStats := {}
  isRecording : Bool := false
  records : Array Record := #[]
  failure : Option Failure := none

abbrev Visitor := StateM Visit

namespace Visitor
variable {α : Type}

/-- A step that may fail; nothing is done after a failure. -/
def attempt (step : Visit → Except Failure Visit) : Visitor Unit :=
  modify fun s =>
    match s.failure with
    | some _ => s
    | none =>
      match step s with
      | .ok t => t
      | .error e => { s with failure := some e }

/-- How a visit ended: the tree with its flags, the failure if there was one, and the counters and
records at that point. -/
structure Ending (α : Type) where
  tree : α
  failure : Option Failure
  stats : ExpressionStats
  records : Array Record

/-- Visits one tree after the other; a failure ends only the visit of its own tree, and every visit
has its own records. -/
def each (step : α → Visitor α) (s : Visit) : List α → List (Ending α) × Visit
  | [] => ([], s)
  | a :: as =>
    let (tree, t) := (step a).run { s with records := #[], failure := none }
    let (rest, last) := each step t as
    (⟨tree, t.failure, t.stats, t.records⟩ :: rest, last)

/-- Runs `act` inside the body of `d`. -/
def inside (d : DeclId) (act : Visitor α) : Visitor α := do
  modify fun s => { s with scopes := d :: s.scopes }
  let a ← act
  modify fun s => { s with scopes := s.scopes.tail }
  return a

def insideOption : Option DeclId → Visitor α → Visitor α
  | some d, act => inside d act
  | none, act => act

/-- Runs `act` with the variables of a comprehension bound. -/
def binding (ds : List DeclId) (act : Visitor α) : Visitor α := do
  modify fun s => { s with bound := ds ++ s.bound }
  let a ← act
  modify fun s => { s with bound := s.bound.drop ds.length }
  return a

/-- A variable of a comprehension whose member is the result is read through the iteration. -/
def boxReceiver (result : Expr) : Visitor Unit :=
  attempt fun s =>
    match result.unwrap with
    | .mk _ (.member (.mk _ (.base (some d) _)) _ _ _) =>
      if s.bound.contains d then .ok { s with marks := s.marks.forceBoxed d } else .ok s
    | _ => .ok s

end Visitor

namespace Target
open Visitor
variable (t : Target)

/-- The type of an expression has to be in the table. -/
def checkType (n : Node) : Except Failure Unit :=
  match n.type with
  | some type => if t.program.hasType type then .ok () else .error (.unknownType type n.location)
  | none => .ok ()

/-- The finding for an expression whose parts have their flags. -/
def find (marks : Marks) (scopes : List DeclId) (n : Node) (form : Form) :
    Except Failure Finding := do
  t.checkType n
  View.rule { t with marks, scopes } n form

/-- Gives an expression its flags and records them. -/
def finish (n : Node) (form : Form) : Visitor Expr :=
  modifyGet fun s =>
    match s.failure with
    | some _ => (.mk n form, s)
    | none =>
      match t.find s.marks s.scopes n form with
      | .error e => (.mk n form, { s with failure := some e })
      | .ok found =>
        (.mk { n with flags := found.flags } form,
          { s with
            marks := found.marks
            stats := s.stats.add found.flags found.unresolved
            records :=
              if s.isRecording then s.records.push ⟨n.id, n.location, found.flags⟩
              else s.records })

/-- Boxes a variable met at `location`. -/
def forceAt (location : Location) (d : DeclId) : Visitor Unit :=
  attempt fun s => do
    let _ ← t.program.decl d location
    return { s with marks := s.marks.forceBoxed d }

/-- A value that is assigned to a small variable is narrow. -/
def narrow (target : Expr) : Visitor Unit :=
  attempt fun s => do
    let some d := target.referenced | return s
    let x ← t.program.decl d target.location
    if !x.isSmall then return s
    t.checkType target.node
    match target.type with
    | some type => return { s with marks := s.marks.setUnderlying type (some .int) }
    | none => return s

mutual

def visit : Expr → Visitor Expr
  | .mk n (.template es) => do t.finish n (.template (← visitAll es))
  | .mk n (.member e d op ts) => do t.finish n (.member (← visit e) d op ts)
  | .mk n (.paren e) => do t.finish n (.paren (← visit e))
  | .mk n (.call f es) => do
    let f ← visit f
    let es ← visitAll es
    t.finish n (.call f es)
  | .mk n (.callNamed f as) => do
    let f ← visit f
    let as ← visitNamed as
    t.finish n (.callNamed f as)
  | .mk n (.unary op e) => do t.finish n (.unary op (← visit e))
  | .mk n (.binary op a b) => do
    let a ← visit a
    let b ← visit b
    t.finish n (.binary op a b)
  | .mk n (.assign target value) => do
    let target ← visit target
    let value ← visit value
    t.narrow target
    t.finish n (.assign target value)
  | .mk n (.present e) => do t.finish n (.present (← visit e))
  | .mk n (.nonempty e) => do t.finish n (.nonempty (← visit e))
  | .mk n (.isOf e type) => do t.finish n (.isOf (← visit e) type)
  | .mk n (.within a b d) => do
    let a ← visit a
    let b ← visit b
    let d ← visit d
    t.finish n (.within a b d)
  | .mk n (.choose cs yes no) => do
    let cs ← visitConditions cs
    let yes ← visit yes
    let no ← visit no
    t.finish n (.choose cs yes no)
  | .mk n (.switch e cs otherwise) => do
    let e ← visit e
    let cs ← visitCases cs
    let otherwise ← visitOption otherwise
    t.finish n (.switch e cs otherwise)
  | .mk n (.letIn bs result) => do
    let bs ← visitBindings bs
    let result ← visit result
    t.finish n (.letIn bs result)
  | .mk n (.function d lists body) => do
    let (lists, body) ← insideOption d do
      let lists ← visitLists lists
      let body ← visitBody body
      return (lists, body)
    t.finish n (.function d lists body)
  | .mk n (.element e i) => do
    let e ← visit e
    let i ← visit i
    t.finish n (.element e i)
  | .mk n (.span e first last) => do
    let e ← visit e
    let first ← visitOption first
    let last ← visitOption last
    t.finish n (.span e first last)
  | .mk n (.tuple es) => do t.finish n (.tuple (← visitAll es))
  | .mk n (.sequence es) => do t.finish n (.sequence (← visitAll es))
  | .mk n (.comprehension clause) => do t.finish n (.comprehension (← visitClause clause))
  | .mk n (.spread e) => do t.finish n (.spread (← visit e))
  | .mk n (.literal l) => t.finish n (.literal l)
  | .mk n (.base d ts) => t.finish n (.base d ts)
  | .mk n (.constructor d) => t.finish n (.constructor d)
  | .mk n (.typeLiteral target) => t.finish n (.typeLiteral target)
  | .mk n .this => t.finish n .this
  | .mk n .super => t.finish n .super
  | .mk n .outer => t.finish n .outer

def visitAll : List Expr → Visitor (List Expr)
  | [] => return []
  | e :: es => do
    let e ← visit e
    let es ← visitAll es
    return e :: es

def visitOption : Option Expr → Visitor (Option Expr)
  | none => return none
  | some e => do return some (← visit e)

def visitNamed : List NamedArgument → Visitor (List NamedArgument)
  | [] => return []
  | .specified name e :: as => do
    let e ← visit e
    let as ← visitNamed as
    return .specified name e :: as
  | .attribute d body :: as => do
    let body ← inside d (visitBody body)
    let as ← visitNamed as
    return .attribute d body :: as
  | .method d lists body :: as => do
    let (lists, body) ← inside d do
      let lists ← visitLists lists
      let body ← visitBody body
      return (lists, body)
    let as ← visitNamed as
    return .method d lists body :: as
  | .sequenced es :: as => do
    let es ← visitAll es
    let as ← visitNamed as
    return .sequenced es :: as

def visitConditions : List Condition → Visitor (List Condition)
  | [] => return []
  | .mk test e :: cs => do
    let e ← visit e
    let cs ← visitConditions cs
    return .mk test e :: cs

def visitBindings : List Binding → Visitor (List Binding)
  | [] => return []
  | .mk d e :: bs => do
    let e ← visit e
    let bs ← visitBindings bs
    return .mk d e :: bs

def visitCases : List ValueCase → Visitor (List ValueCase)
  | [] => return []
  | .mk es result :: cs => do
    let es ← visitAll es
    let result ← visit result
    let cs ← visitCases cs
    return .mk es result :: cs

def visitClause : Clause → Visitor Clause
  | .forIn pattern e next => do
    let e ← visit e
    pattern.variables.forM (t.forceAt e.location)
    let next ← binding pattern.variables (visitClause next)
    return .forIn pattern e next
  | .onlyIf cs next => do
    (cs.filterMap Condition.variable?).forM (t.forceAt .unknown)
    let cs ← visitConditions cs
    let next ← visitClause next
    return .onlyIf cs next
  | .yield e => do
    boxReceiver e
    return .yield (← visit e)

def visitParameters : List Parameter → Visitor (List Parameter)
  | [] => return []
  | .value d initial :: ps => do
    let initial ← visitOption initial
    let ps ← visitParameters ps
    return .value d initial :: ps
  | .functional d initial lists :: ps => do
    let initial ← visitOption initial
    let lists ← visitLists lists
    let ps ← visitParameters ps
    return .functional d initial lists :: ps

def visitLists : List (List Parameter) → Visitor (List (List Parameter))
  | [] => return []
  | ps :: lists => do
    let ps ← visitParameters ps
    let lists ← visitLists lists
    return ps :: lists

def visitBody : Body → Visitor Body
  | .absent => return .absent
  | .value e => do return .value (← visit e)
  | .block ss => do return .block (← visitBlock ss)

def visitStmt : Stmt → Visitor Stmt
  | .declare head lists body => do
    attempt fun s => do
      let _ ← t.program.decl head.declaration head.location
      return s
    let (lists, body) ← inside head.declaration do
      let lists ← visitLists lists
      let body ← visitBody body
      return (lists, body)
    return .declare head lists body
  | .specify target value isLazy => do
    let target ← visit target
    let value ← visit value
    t.narrow target
    return .specify target value isLazy
  | .evaluate e => do return .evaluate (← visit e)
  | .returns e => do return .returns (← visitOption e)
  | .throws e => do return .throws (← visitOption e)
  | .ifElse cs yes no => do
    let cs ← visitConditions cs
    let yes ← visitBlock yes
    let no ← visitBlock no
    return .ifElse cs yes no
  | .whileDo cs body => do
    let cs ← visitConditions cs
    let body ← visitBlock body
    return .whileDo cs body
  | .forIn pattern e body otherwise => do
    let e ← visit e
    pattern.variables.forM (t.forceAt e.location)
    let body ← visitBlock body
    let otherwise ← visitBlock otherwise
    return .forIn pattern e body otherwise
  | .switch e cs otherwise => do
    let e ← visit e
    let cs ← visitBlockCases cs
    let otherwise ← visitBlock otherwise
    return .switch e cs otherwise
  | .block ss => do return .block (← visitBlock ss)
  | .breaks => return .breaks
  | .continues => return .continues

def visitBlock : List Stmt → Visitor (List Stmt)
  | [] => return []
  | s :: ss => do
    let s ← visitStmt s
    let ss ← visitBlock ss
    return s :: ss

def visitBlockCases : List BlockCase → Visitor (List BlockCase)
  | [] => return []
  | .mk es body :: cs => do
    let es ← visitAll es
    let body ← visitBlock body
    let cs ← visitBlockCases cs
    return .mk es body :: cs

end

def visitUnit (u : SourceUnit) : Visitor SourceUnit := do
  return { u with statements := ← t.visitBlock u.statements }

end Target

end Unbox
