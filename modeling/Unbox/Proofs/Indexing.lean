import Unbox.Policy.Standard
import Unbox.Proofs.Lookups
import Unbox.Proofs.Twins

/-!
# Indexed expressions and calls

An indexed expression stands for the call of an accessor of what is indexed. It has a rule of its own,
and the flags that this gives are not always those of the call.

* `Form.indexed?` : what is indexed, the name of the accessor and the arguments for it;
* `View.accessFlags` : the flags of the accessor, reached through what is indexed;
* `View.indexFinding_of_accessor`, `View.memberFinding_of_method`, `View.callFlags_of_member` : the
  rules in terms of these flags;
* `View.resultFlags_eq_iff` : when they give the same;
* `Target.visit_index`, `Target.visit_memberCall` : the flags of both expressions once they are visited;
* `Target.index_agrees_iff` : when an indexed expression has the flags of the call;
* `Target.index_disagrees` : two that have not.
-/

namespace Unbox

/-- What is indexed, with the name of the accessor and the arguments for it. -/
def Form.indexed? : Form → Option (Expr × String × List Expr)
  | .element primary index => some (primary, "get", [index])
  | .span primary first last => some (primary, "span", first.toList ++ last.toList)
  | _ => none

/-- The accessor of this name that an expression of the type has. -/
def Program.accessorOf? (p : Program) (type : Option TypeId) (name : String) : Option DeclId :=
  type >>= p.typeDeclaration? >>= fun owner => p.accessor? owner name

theorem Program.isMethod_of_accessorOf? {p : Program} {type : Option TypeId} {name : String}
    {d : DeclId} {x : Declaration} (h : p.accessorOf? type name = some d) (hx : p.decl? d = some x) :
    x.isMethod = true := by
  obtain ⟨owner, -, h⟩ := Option.bind_eq_some_iff.mp h
  obtain ⟨y, -, h⟩ := Option.bind_eq_some_iff.mp h
  obtain ⟨a, -, ha⟩ := List.exists_of_findSome?_eq_some h
  obtain ⟨z, -, hd⟩ := Option.bind_eq_some_iff.mp ha
  have hm := List.find?_some hd
  simp only [isMethodNamed, hx, Option.any_some, Bool.and_eq_true] at hm
  exact hm.2

/-- Some argument of the type erases. -/
def Target.hasErasingArgument (t : Target) (type : Option TypeId) : Bool :=
  ((type >>= t.program.form?).map TypeForm.arguments).getD [] |>.any fun a =>
    t.policy.hasErasure t.program a || t.policy.erasesToObject t.program a

/-! ## Both rules -/

namespace View
variable {v : View} {primary : Expr} {d : DeclId} {x : Declaration}

/-- The flags of a member, reached through `primary`. -/
def accessFlags (v : View) (primary : Expr) (d : DeclId) (x : Declaration) : Flags :=
  { v.declarationFlags d x with
    typeErased := (v.declarationFlags d x).typeErased || v.erasedThrough primary x }

/-- Whether a member is unboxed: in a primitive, that is up to its type. -/
def accessUnboxed (v : View) (primary : Expr) (d : DeclId) (x : Declaration) : Bool :=
  if v.isBasic primary.type && primary.flags.unboxed then v.isBasic x.type else v.marks.isUnboxed d

theorem rule_indexed {n : Node} {form : Form} {name : String} {es : List Expr}
    (h : form.indexed? = some (primary, name, es)) :
    v.rule n form = v.indexFinding n.location primary name := by
  cases form with
  | element | span =>
    cases h
    rfl
  | _ => cases h

theorem indexFinding_of_accessor {name : String} (h : v.program.accessorOf? primary.type name = some d)
    (hx : v.program.decl? d = some x) (l : Location) :
    v.indexFinding l primary name = .ok ⟨resultFlags (v.accessFlags primary d x)
      (x.type.any v.program.isTypeParameterUse &&
        (primary.isRaw v.marks || v.hasErasingArgument primary.type)), v.marks, false⟩ := by
  unfold Program.accessorOf? at h
  unfold indexFinding
  rw [h]
  simp only [Program.decl_eq_ok_iff.mpr hx, bind, Except.bind]
  rfl

theorem memberFinding_of_method (hx : v.program.decl? d = some x) (l : Location) :
    v.memberFinding l primary d .plain = .ok
      ⟨{ v.accessFlags primary d x with unboxed := v.accessUnboxed primary d x }, v.marks, false⟩ := by
  unfold memberFinding
  simp only [Program.decl_eq_ok_iff.mpr hx, bind, Except.bind]
  rfl

/-- The call of a method gets its flags from the reference to the method. -/
theorem callFlags_of_member {q : Node} (hx : v.program.decl? d = some x) (hm : x.isMethod = true)
    (l : Location) (es : List Expr) :
    v.callFlags l (.mk q (.member primary (some d) .plain [])) es =
      .ok (resultFlags q.flags (x.type.any v.program.isTypeParameterUse &&
        (q.flags.raw || q.type.any v.marks.raw))) := by
  have hclass : x.isClass = false := by
    unfold Declaration.isMethod at hm
    unfold Declaration.isClass
    cases hk : x.kind <;> simp_all
  unfold callFlags
  simp only [Expr.unwrap, Expr.referenced, Program.decl_eq_ok_iff.mpr hx, bind, Except.bind, hm, hclass]
  simp [hasGenericResult, Expr.typeArguments, Expr.isRaw, Expr.flags, Expr.type, Expr.node, pure,
    Except.pure]

theorem resultFlags_eq_iff (flags : Flags) (unboxed isGeneric isGeneric' : Bool) :
    resultFlags { flags with unboxed } isGeneric' = resultFlags flags isGeneric ↔
      unboxed = flags.unboxed ∧
        (isGeneric' = isGeneric ∨ flags.typeErased = true ∧ flags.untrusted = true) := by
  obtain ⟨u, e, r, w⟩ := flags
  cases isGeneric <;> cases isGeneric' <;> cases e <;> cases w <;> simp [resultFlags]

end View

/-! ## Both visits -/

/-- The findings about `d` and the raw marks of the types are the same. -/
structure Marks.SameFor (d : DeclId) (types : List TypeId) (m m' : Marks) : Prop where
  declaration : m'.declarations.get d = m.declarations.get d
  raw : ∀ a ∈ types, m'.raw a = m.raw a

namespace Marks.SameFor
variable {t : Target} {scopes : List DeclId} {d : DeclId} {x : Declaration} {types : List TypeId}
  {m m' : Marks} {e : Expr} (h : SameFor d types m m')
include h

theorem any_raw {type : Option TypeId} (ht : type.toList ⊆ types) :
    type.any m'.raw = type.any m.raw := by
  cases type with
  | none => rfl
  | some a => exact h.raw a (ht (List.mem_singleton_self a))

theorem isRaw (he : e.type.toList ⊆ types) : e.isRaw m' = e.isRaw m :=
  congrArg (e.flags.raw || ·) (h.any_raw he)

theorem accessFlags (he : e.type.toList ⊆ types) (hx : x.type.toList ⊆ types) :
    View.accessFlags ⟨t, m', scopes⟩ e d x = View.accessFlags ⟨t, m, scopes⟩ e d x := by
  simp only [View.accessFlags, View.declarationFlags, View.erasedThrough, Marks.isUnboxed, Marks.unboxed,
    Marks.typeErased, Marks.isUntrusted, Marks.untrusted, h.declaration, h.any_raw hx, h.isRaw he]

end Marks.SameFor

namespace Target
variable {t : Target} {n k q : Node} {form : Form} {p : Expr} {name : String} {es : List Expr}
  {d : DeclId} {x : Declaration}

theorem visit_indexed (h : form.indexed? = some (p, name, es)) (n : Node) (s : Visit) :
    ∃ form', form'.indexed? = some ((t.visit p s).1, name, (t.visitAll es (t.visit p s).2).1) ∧
      t.visit (.mk n form) s = t.finish n form' (t.visitAll es (t.visit p s).2).2 := by
  cases form with
  | element primary index =>
    cases h
    exact ⟨.element (t.visit p s).1 (t.visit index (t.visit p s).2).1, rfl, rfl⟩
  | span primary first last =>
    cases h
    let ends := t.visitOption first (t.visit p s).2
    refine ⟨.span (t.visit p s).1 ends.1 (t.visitOption last ends.2).1, ?_, ?_⟩
    · cases first <;> cases last <;> rfl
    · cases first <;> cases last <;> rfl
  | _ => cases h

/-- A rule that changes no mark gives its flags to the expression, unless there was a failure. -/
theorem finish_of_rule {flags : Flags} {unresolved : Bool} {s : Visit} (hn : t.checkType n = .ok ())
    (h : View.rule ⟨t, s.marks, s.scopes⟩ n form = .ok ⟨flags, s.marks, unresolved⟩) :
    Visit.Related (fun j j' => j'.marks = j.marks) s (t.finish n form s).2 ∧
      (s.failure = none → (t.finish n form s).1 = .mk { n with flags } form) := by
  have hfind : t.find s.marks s.scopes n form = .ok ⟨flags, s.marks, unresolved⟩ := by
    unfold find
    rw [hn]
    exact h
  cases hf : s.failure with
  | some e =>
    rw [finish_of_failure hf]
    exact ⟨⟨rfl, rfl, rfl, rfl⟩, nofun⟩
  | none =>
    rw [finish_of_ok hf hfind]
    exact ⟨⟨rfl, rfl, rfl, rfl⟩, fun _ => rfl⟩

theorem failure_of_visitAll {s : Visit} (h : (t.visitAll es s).2.failure = none) :
    s.failure = none := by
  cases hf : s.failure with
  | none => rfl
  | some e =>
    have hs : s.Sound t fun _ => True := fun h => nomatch hf.symm.trans h
    exact hf.symm.trans (((t.visitAll_visits es).leads (fun _ _ _ _ => trivial) hs).failure h)

theorem type_visit (p : Expr) (s : Visit) : (t.visit p s).1.type = p.type :=
  calc (t.visit p s).1.type = (Bare.expr (t.visit p s).1).type := (Bare.type_expr _).symm
    _ = (Bare.expr p).type := congrArg Expr.type ((t.visit_visits p).bare s)
    _ = p.type := Bare.type_expr p

/-- The flags of an indexed expression, from the marks that the arguments leave. -/
theorem visit_index (s : Visit) (hform : form.indexed? = some (p, name, es))
    (haccessor : t.program.accessorOf? p.type name = some d) (hx : t.program.decl? d = some x)
    (hn : t.checkType n = .ok ()) :
    let primary := t.visit p s
    let arguments := t.visitAll es primary.2
    let index := t.visit (.mk n form) s
    let v : View := ⟨t, arguments.2.marks, s.scopes⟩
    index.2.failure = arguments.2.failure ∧ index.2.marks = arguments.2.marks ∧
      (arguments.2.failure = none → index.1.flags = View.resultFlags (v.accessFlags primary.1 d x)
        (x.type.any t.program.isTypeParameterUse &&
          (primary.1.isRaw v.marks || t.hasErasingArgument p.type))) := by
  intro primary arguments index v
  obtain ⟨form', hform', hindex⟩ := visit_indexed (t := t) hform n s
  rw [← type_visit (t := t) p s] at haccessor ⊢
  let w : View := ⟨t, arguments.2.marks, arguments.2.scopes⟩
  have hrule : w.rule n form' = .ok ⟨_, arguments.2.marks, false⟩ :=
    (View.rule_indexed hform').trans (View.indexFinding_of_accessor (v := w) haccessor hx n.location)
  obtain ⟨hafter, hflags⟩ := finish_of_rule hn hrule
  rw [← hindex] at hafter hflags
  exact ⟨hafter.failure, hafter.journal, fun hok => congrArg Expr.flags (hflags hok)⟩

/-- The flags of the call, from the marks before and after the arguments. -/
theorem visit_memberCall (p : Expr) (es : List Expr) (s : Visit) (hx : t.program.decl? d = some x)
    (hm : x.isMethod = true) (hk : t.checkType k = .ok ()) (hq : t.checkType q = .ok ()) :
    let primary := t.visit p s
    let arguments := t.visitAll es primary.2
    let call := t.visit (.mk k (.call (.mk q (.member p (some d) .plain [])) es)) s
    let v : View := ⟨t, primary.2.marks, s.scopes⟩
    call.2.failure = arguments.2.failure ∧ call.2.marks = arguments.2.marks ∧
      (arguments.2.failure = none → call.1.flags = View.resultFlags
        { v.accessFlags primary.1 d x with unboxed := v.accessUnboxed primary.1 d x }
        (x.type.any t.program.isTypeParameterUse &&
          (x.type.any v.marks.raw || q.type.any arguments.2.marks.raw))) := by
  intro primary arguments call v
  let callee := t.finish q (.member primary.1 (some d) .plain []) primary.2
  let arguments' := t.visitAll es callee.2
  have hmember : View.rule ⟨t, primary.2.marks, primary.2.scopes⟩ q
      (.member primary.1 (some d) .plain []) = .ok ⟨_, primary.2.marks, false⟩ :=
    View.memberFinding_of_method hx q.location
  obtain ⟨hcallee, hreference⟩ := finish_of_rule hq hmember
  obtain ⟨-, hrelated⟩ := (t.visitAll_visits es).respects t.carries_marks _ callee.2 hcallee
  have hmarks : arguments'.2.marks = arguments.2.marks := hrelated.journal
  obtain ⟨flags, hflags⟩ := exists_finish_eq (t := t) q (.member primary.1 (some d) .plain []) primary.2
  have hrule : View.rule ⟨t, arguments'.2.marks, arguments'.2.scopes⟩ k (.call callee.1 arguments'.1) =
      .ok ⟨View.resultFlags flags (x.type.any t.program.isTypeParameterUse &&
        (flags.raw || q.type.any arguments'.2.marks.raw)), arguments'.2.marks, false⟩ := by
    rw [View.rule, hflags, View.callFlags_of_member hx hm]
    rfl
  obtain ⟨hafter, hcall⟩ := finish_of_rule hk hrule
  refine ⟨hafter.failure.trans hrelated.failure, hafter.journal.trans hmarks, fun hok => ?_⟩
  have hprimary : primary.2.failure = none := failure_of_visitAll hok
  obtain rfl : flags = { v.accessFlags primary.1 d x with unboxed := v.accessUnboxed primary.1 d x } :=
    congrArg Expr.flags (hflags.symm.trans (hreference hprimary))
  rw [← hmarks]
  exact congrArg Expr.flags (hcall (hrelated.failure.trans hok))

/-- An indexed expression and the call of the accessor fail alike and leave the same marks. Neither is
raw. If the arguments leave alone what is found about the accessor, the two have the same flags exactly
if two conditions hold. If what is indexed is an unboxed primitive, the accessor is unboxed exactly if
its type is basic. And if the accessor returns a type parameter, what is indexed is raw or has a type
argument that erases exactly if the reference to the accessor is raw, unless the accessor counts as
untrusted and erased anyway. -/
theorem index_agrees_iff (t : Target) (s : Visit) (hform : form.indexed? = some (p, name, es))
    (haccessor : t.program.accessorOf? p.type name = some d) (hx : t.program.decl? d = some x)
    (hn : t.checkType n = .ok ()) (hk : t.checkType k = .ok ()) (hq : t.checkType q = .ok ()) :
    let primary := t.visit p s
    let arguments := t.visitAll es primary.2
    let index := t.visit (.mk n form) s
    let call := t.visit (.mk k (.call (.mk q (.member p (some d) .plain [])) es)) s
    let v : View := ⟨t, primary.2.marks, s.scopes⟩
    index.2.failure = arguments.2.failure ∧ call.2.failure = arguments.2.failure ∧
      call.2.marks = index.2.marks ∧
      (arguments.2.failure = none → index.1.flags.raw = false ∧ call.1.flags.raw = false ∧
        (Marks.SameFor d (p.type.toList ++ x.type.toList ++ q.type.toList) v.marks arguments.2.marks →
          (call.1.flags = index.1.flags ↔
            (v.isBasic p.type = true → primary.1.flags.unboxed = true →
              v.isBasic x.type = v.marks.isUnboxed d) ∧
            (x.type.any t.program.isTypeParameterUse = true →
              (primary.1.isRaw v.marks || t.hasErasingArgument p.type) =
                  (x.type.any v.marks.raw || q.type.any v.marks.raw) ∨
                v.marks.isUntrusted d = true ∧
                  (v.marks.typeErased d || v.erasedThrough primary.1 x) = true)))) := by
  intro primary arguments index call v
  obtain ⟨hif, him, hindex⟩ := visit_index s hform haccessor hx hn
  obtain ⟨hcf, hcm, hcall⟩ := visit_memberCall p es s hx
    (Program.isMethod_of_accessorOf? haccessor hx) hk hq
  refine ⟨hif, hcf, hcm.trans him.symm, fun hok => ?_⟩
  replace hindex := hindex hok
  replace hcall := hcall hok
  refine ⟨congrArg Flags.raw hindex, congrArg Flags.raw hcall, fun hsame => ?_⟩
  have htype : primary.1.type = p.type := type_visit p s
  have hp : primary.1.type.toList ⊆ p.type.toList ++ x.type.toList ++ q.type.toList := by
    rw [htype, List.append_assoc]
    exact List.subset_append_left ..
  have hxs : x.type.toList ⊆ p.type.toList ++ x.type.toList ++ q.type.toList :=
    List.Subset.trans (List.subset_append_right ..) (List.subset_append_left ..)
  rw [hindex, hcall, hsame.accessFlags hp hxs, hsame.isRaw hp,
    hsame.any_raw (List.subset_append_right ..), View.resultFlags_eq_iff]
  refine and_congr ?_ ?_
  · change (if v.isBasic primary.1.type && primary.1.flags.unboxed then v.isBasic x.type
      else v.marks.isUnboxed d) = v.marks.isUnboxed d ↔ _
    rw [htype]
    cases v.isBasic p.type <;> cases primary.1.flags.unboxed <;> simp
  · change _ ∨ (v.marks.typeErased d || v.erasedThrough primary.1 x) = true ∧
      v.marks.isUntrusted d = true ↔ _
    cases x.type.any t.program.isTypeParameterUse with
    | false => simp
    | true =>
      rw [Bool.true_and, Bool.true_and, eq_comm, and_comm]
      exact ⟨fun h _ => h, fun h => h rfl⟩

end Target

/-! ## Shelves -/

/-- The class of whole numbers (0); a cell (1) of something (2) with an accessor (3) for it, and a value
(4); a text (5), which is primitive, with an accessor (6) for a whole number, and a value (7). The types
5 and 6 are duplicates of those of the accessors. -/
def Program.shelves : Program where
  names := ⟨#["Integer", "Cell", "T", "get", "cells", "Text", "span", "text"]⟩
  decls := #[
    { name := some ⟨0⟩, kind := .classType {}, scope := .unit },
    { name := some ⟨1⟩, kind := .classType { members := [⟨3⟩] }, scope := .unit,
      typeParameters := [⟨2⟩] },
    { name := some ⟨2⟩, kind := .typeParameter { variance := .invariant }, scope := .declaration ⟨1⟩ },
    { name := some ⟨3⟩, kind := .method {}, scope := .declaration ⟨1⟩, type := some ⟨1⟩ },
    { name := some ⟨4⟩, kind := .value, scope := .unit, type := some ⟨2⟩ },
    { name := some ⟨5⟩, kind := .classType { members := [⟨6⟩] }, scope := .unit },
    { name := some ⟨6⟩, kind := .method {}, scope := .declaration ⟨5⟩, type := some ⟨0⟩ },
    { name := some ⟨7⟩, kind := .value, scope := .unit, type := some ⟨4⟩ }]
  types := #[.nominal ⟨0⟩ [], .typeParameter ⟨2⟩, .nominal ⟨1⟩ [⟨0⟩], .nominal ⟨1⟩ [⟨0⟩],
    .nominal ⟨5⟩ [], .typeParameter ⟨2⟩, .nominal ⟨0⟩ []]
  core := ⟨⟨9⟩, ⟨9⟩, ⟨9⟩, ⟨9⟩, ⟨9⟩, ⟨9⟩, ⟨9⟩, ⟨0⟩, ⟨9⟩, ⟨9⟩, ⟨9⟩, ⟨5⟩, ⟨9⟩, ⟨9⟩, ⟨9⟩⟩

namespace Shelves

def target : Target := ⟨.shelves, .standard⟩

/-- A node of the type. -/
def node (type : Nat) : Node := { id := ⟨type⟩, type := some ⟨type⟩, location := .unknown }

def zero : Expr := .mk (node 0) (.literal (.natural 0))

/-- The value `d`, as an expression of the type. -/
def value (d type : Nat) : Expr := .mk (node type) (.base (some ⟨d⟩) [])

/-- The call of the accessor `d` of `primary`; the reference to it is of the type. -/
def invoke (primary : Expr) (d type : Nat) (es : List Expr) : Expr :=
  .mk (node 0) (.call (.mk (node type) (.member primary (some ⟨d⟩) .plain [])) es)

/-- The text is unboxed, and the type 3 is raw. -/
def start : Visit := { marks := (({} : Marks).setUnboxed ⟨7⟩ true).setRaw ⟨3⟩ true }

end Shelves

namespace Target
open Shelves

/-- A whole number from a cell of whole numbers is the same either way, although the accessor returns a
type parameter. -/
theorem index_agrees_iff_cell :
    let index := target.visit (.mk (node 0) (.element (value 4 2) zero)) start
    let called := target.visit
      (.mk (node 0) (.call (.mk (node 5) (.member (value 4 2) (some ⟨3⟩) .plain [])) [zero])) start
    target.program.accessorOf? (some ⟨2⟩) "get" = some ⟨3⟩ ∧ index.2.failure = none ∧
      called.2.failure = none ∧ called.1.flags = index.1.flags := by
  have haccessor : target.program.accessorOf? (value 4 2).type "get" = some ⟨3⟩ := by decide +kernel
  have hform : (Form.element (value 4 2) zero).indexed? = some (value 4 2, "get", [zero]) := rfl
  have hx : target.program.decl? ⟨3⟩ = some _ := rfl
  have hn : target.checkType (node 0) = .ok () := rfl
  have hq : target.checkType (node 5) = .ok () := rfl
  have hagrees := index_agrees_iff target start hform haccessor hx hn hn hq
  have hok : (target.visitAll [zero] (target.visit (value 4 2) start).2).2.failure = none := by
    decide +kernel
  have hflags := (hagrees.2.2.2 hok).2.2 ⟨by decide +kernel, by decide +kernel⟩
  exact ⟨haccessor, hagrees.1.trans hok, hagrees.2.1.trans hok,
    hflags.mpr ⟨by decide +kernel, by decide +kernel⟩⟩

/-- Two ways in which the two differ: a raw cell, and an unboxed text. -/
theorem index_disagrees :
    let flags (e : Expr) : Flags := (target.visit e start).1.flags
    (target.program.accessorOf? (some ⟨3⟩) "get" = some ⟨3⟩ ∧
      flags (.mk (node 0) (.element (value 4 3) zero)) = { typeErased := true, untrusted := true } ∧
      flags (invoke (value 4 3) 3 5 [zero]) = { typeErased := true }) ∧
    (target.program.accessorOf? (some ⟨4⟩) "span" = some ⟨6⟩ ∧
      flags (.mk (node 0) (.span (value 7 4) (some zero) (some zero))) = {} ∧
      flags (invoke (value 7 4) 6 6 [zero, zero]) = { unboxed := true }) := by
  decide +kernel

end Target

end Unbox
