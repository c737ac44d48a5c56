import Unbox.Decision
import Unbox.Listing
import Unbox.Visit

/-!
# Reports: what a run found out, to be read by people

* `Report.collect` : an entry for every decided declaration, in the order of the table, and one for
  every recorded expression, in the order of the visit;
* `Report.toJson` : the report as JSON.
-/

namespace Unbox

/-- The counters of a run. -/
structure RunStats where
  declarations : DeclarationStats := {}
  expressions : ExpressionStats := {}
deriving DecidableEq

structure DeclarationEntry where
  kind : String
  unboxed : Bool
  typeErased : Bool
  untrusted : Bool
  raw : Bool
deriving DecidableEq

structure ExpressionEntry where
  line : Nat
  column : Nat
  flags : Flags
deriving DecidableEq

structure Report where
  unit : String
  /-- By qualified name; a name that is taken already has the number of the declaration added. -/
  declarations : List (String × DeclarationEntry)
  expressions : List (ExprId × ExpressionEntry)
  stats : RunStats

/-- An entry at the end, or in the place of the one with the same key. -/
def putEntry {α β : Type} [DecidableEq α] (key : α) (value : β) : List (α × β) → List (α × β)
  | [] => [(key, value)]
  | (k, v) :: rest =>
    if k = key then (key, value) :: rest else (k, v) :: putEntry key value rest

namespace Report

/-- The entry of a decided declaration. -/
def entry? (m : Marks) (d : DeclId) (x : Declaration) : Option DeclarationEntry :=
  (m.unboxed d).map fun unboxed =>
    { kind := x.kindName
      unboxed
      typeErased := m.typeErased d
      untrusted := m.isUntrusted d
      raw := x.type.any m.raw }

/-- The key of a declaration among the entries before it. -/
def keyOf (p : Program) (entries : List (String × DeclarationEntry)) (d : DeclId) : String :=
  let name := p.qualifiedName d
  if (entries.lookup name).isSome then name ++ "#" ++ d.index.repr else name

/-- The entries of the decided declarations among `xs`, the first of which is number `i`. -/
def declarationEntries (p : Program) (m : Marks) (i : Nat)
    (entries : List (String × DeclarationEntry)) :
    List Declaration → List (String × DeclarationEntry)
  | [] => entries
  | x :: xs =>
    let entries := match entry? m ⟨i⟩ x with
      | some e => putEntry (keyOf p entries ⟨i⟩) e entries
      | none => entries
    declarationEntries p m (i + 1) entries xs

def expressionEntries (records : List Record) : List (ExprId × ExpressionEntry) :=
  records.foldl (fun entries r => putEntry r.id ⟨r.location.line, r.location.column, r.flags⟩ entries)
    []

def collect (unit : String) (p : Program) (m : Marks) (records : List Record) (stats : RunStats) :
    Report where
  unit := unit
  declarations := declarationEntries p m 0 [] p.decls.toList
  expressions := expressionEntries records
  stats := stats

/-- The keys of the unboxed declarations. -/
def unboxedKeys (r : Report) : List String :=
  (r.declarations.filter fun e => e.2.unboxed).map Prod.fst

end Report

/-! ## JSON -/

instance : Listing DeclarationEntry where
  listing e :=
    .object
      [("kind", listing e.kind), ("unboxed", listing e.unboxed),
        ("type_erased", listing e.typeErased), ("untrusted_type", listing e.untrusted),
        ("raw", listing e.raw)]

instance : Listing ExpressionEntry where
  listing e :=
    .object
      [("line", listing e.line), ("column", listing e.column),
        ("unboxed", listing e.flags.unboxed), ("type_erased", listing e.flags.typeErased),
        ("raw", listing e.flags.raw), ("untrusted_type", listing e.flags.untrusted)]

instance : Listing DeclarationStats where
  listing s :=
    .object
      [("declarations_visited", listing s.visited), ("inherited", listing s.inherited),
        ("forced_boxed", listing s.forcedBoxed), ("type_erased", listing s.typeErased),
        ("untrusted", listing s.untrusted), ("raw_types", listing s.rawTypes),
        ("reentrant", listing s.reentrant)]

instance : Listing ExpressionStats where
  listing s :=
    .object
      [("nodes_visited", listing s.visited), ("unboxed", listing s.unboxed),
        ("type_erased", listing s.typeErased), ("raw", listing s.raw),
        ("untrusted", listing s.untrusted),
        ("unresolved_accessors", listing s.unresolvedAccessors)]

instance : Listing RunStats where
  listing s :=
    .object [("declarations", listing s.declarations), ("expressions", listing s.expressions)]

namespace Report

def toJson (r : Report) : Json :=
  .object
    [("unit", listing r.unit),
      ("declarations", .object (r.declarations.map fun (k, e) => (k, listing e))),
      ("expressions", .object (r.expressions.map fun (i, e) => (i.index.repr, listing e))),
      ("stats", listing r.stats)]

def render (r : Report) : String := r.toJson.render

end Report

end Unbox
