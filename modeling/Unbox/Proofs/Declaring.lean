import Unbox.Proofs.Building

/-!
# What is declared is there

* `Program.Holds d a` : the declaration `d` is in the table under the heading `a`, which is its name,
  category and scope; `Holds.stays` : later steps leave it there;
* `Draft.Declares`, `declare_declares` : a declaration goes to the end of the table and, in a class or
  interface, to the end of the members;
* `Draft.Gets s a d t` : from `s` to `t` the declaration `d` is new, under the heading `a`;
* `declareTyped`, `declareListed` : how values and methods are declared, and parameters;
* `becomes_enlist` : making a declaration the last parameter of its owner;
* `declareSetter_gets` : a setter comes with its parameter, which comes first.
-/

namespace Unbox

/-! ## Headings -/

/-- What is said of a declaration once and for all. -/
structure Heading where
  name : Option String
  category : Category
  scope : Scope

/-- The name, if there is one, is the text of the symbol. -/
def Program.Named (p : Program) : Option Symbol → Option String → Prop :=
  Option.Rel fun y text => p.names.text? y = some text

/-- The declaration `d` is there under this heading. -/
def Program.Holds (p : Program) (d : DeclId) (a : Heading) : Prop :=
  ∃ x ∈ p.decl? d, p.Named x.name a.name ∧ x.kind.category = a.category ∧ x.scope = a.scope

/-- The declaration that a scope belongs to is in the table. -/
def Program.hasScope (p : Program) (scope : Scope) : Bool := scope.owner?.all p.hasDecl

/-- A new declaration of this kind has no parameters and no members. -/
def Kind.isBlank (kind : Kind) : Bool :=
  decide ({ name := none, kind, scope := .unit : Declaration }).IsBlank

namespace Program
variable {p p' : Program} {d : DeclId} {a : Heading} {scope : Scope} {n : Nat}

theorem Extends.named (h : p.Extends p') {y : Option Symbol} {name : Option String}
    (hy : p.Named y name) : p'.Named y name := by
  cases hy with
  | none => exact .none
  | some hy => exact .some (h.text _ _ hy)

theorem Holds.hasDecl (h : p.Holds d a) : p.hasDecl d = true := by
  obtain ⟨x, hx, -⟩ := h
  exact hasDecl_of_decl? hx

theorem Holds.stays (h : p.Holds d a) (hd : d.index < n) (hc : Changes n p p') (he : p.Extends p') :
    p'.Holds d a := by
  obtain ⟨x, hx, hname, hcategory, hscope⟩ := h
  obtain ⟨y, hy, hs⟩ := hc.stays hd hx
  refine ⟨y, hy, ?_, hs.category.trans hcategory, hs.scope.trans hscope⟩
  rw [hs.name]
  exact he.named hname

theorem hasDecl_of_hasScope (h : p.hasScope scope = true) (o : DeclId) (ho : scope = .declaration o) :
    p.hasDecl o = true := by
  rw [ho] at h
  exact h

theorem hasScope_of_size_le (h : p.hasScope scope = true) (hsize : p.decls.size ≤ p'.decls.size) :
    p'.hasScope scope = true := by
  unfold hasScope at h ⊢
  cases ho : scope.owner? with
  | none => rfl
  | some o =>
    rw [ho, Option.all_some, hasDecl_iff] at h
    rw [Option.all_some, hasDecl_iff]
    omega

end Program

theorem Declaration.isBlank_of_kind {x : Declaration} {kind : Kind} (hx : x.kind = kind)
    (h : kind.isBlank = true) : x.IsBlank := by
  have hblank := of_decide_eq_true h
  unfold IsBlank parameterLists members at hblank ⊢
  rw [hx]
  exact hblank

/-! ## Declaring -/

/-- The declaration `x` of this name is new, is no parameter, and has its place in the table. -/
structure Draft.Declares (s : Draft) (name : Option String) (x : Declaration) (t : Draft) : Prop where
  declares : s.program.Declares x t.program
  name : t.program.Named x.name name
  isParameter : x.isParameter = false
  nextExpr : t.nextExpr = s.nextExpr
  grown : s.program.Extends t.program

namespace Build
variable {s : Draft} {o d : DeclId} {scope : Scope}

/-- Puts a declaration into the table, with the current place. -/
def place (name : Option String) (kind : Kind) (scope : Scope) : Build DeclId := do
  let d ← add name kind scope
  let location := (← get).location
  edit d fun x => { x with location }
  return d

theorem modify_push {α : Type} (xs : Array α) (a : α) (f : α → α) :
    (xs.push a).modify xs.size f = xs.push (f a) := by
  apply Array.ext_getElem?
  intro i
  rw [Array.getElem?_modify, Array.getElem?_push, Array.getElem?_push]
  split
  · next h => rw [if_pos h.symm, if_pos h.symm]; rfl
  · next h => rw [if_neg (Ne.symm h), if_neg (Ne.symm h)]

/-- What is added, but for its place and its modifiers. -/
theorem exists_add (name : Option String) (kind : Kind) (scope : Scope) (s : Draft) :
    ∃ y, (after (add name kind scope) s).program.Named y name ∧
      (after (add name kind scope) s).program.decls = s.program.decls.push { name := y, kind, scope } ∧
      s.program.Extends (after (add name kind scope) s).program := by
  cases name with
  | none => exact ⟨none, .none, rfl, fun _ _ => id, fun _ _ => id, rfl⟩
  | some text =>
    refine ⟨some (s.program.names.intern text).1, .some (Names.text?_intern _ _), rfl, ?_⟩
    exact ⟨fun _ _ h => Names.text?_intern_of_some h text, fun _ _ => id, rfl⟩

theorem result_add (name : Option String) (kind : Kind) (scope : Scope) (s : Draft) :
    result (add name kind scope) s = s.program.nextDecl := by
  cases name <;> rfl

theorem nextExpr_add (name : Option String) (kind : Kind) (scope : Scope) (s : Draft) :
    (after (add name kind scope) s).nextExpr = s.nextExpr := by
  cases name <;> rfl

theorem add_declares (name : Option String) (kind : Kind) (s : Draft) :
    ∃ x, x.kind = kind ∧ x.scope = .unit ∧ s.Declares name x (after (add name kind .unit) s) := by
  obtain ⟨y, hname, hdecls, hgrown⟩ := exists_add name kind .unit s
  have hexpr := nextExpr_add name kind .unit s
  exact ⟨_, rfl, rfl, Program.declares_push hdecls fun d => .inr (by simp), hname, rfl, hexpr, hgrown⟩

theorem exists_place (name : Option String) (kind : Kind) (scope : Scope) (s : Draft) :
    ∃ y, (after (place name kind scope) s).program.Named y name ∧
      (after (place name kind scope) s).program.decls =
        s.program.decls.push { name := y, kind, scope, location := s.location } ∧
      s.program.Extends (after (place name kind scope) s).program := by
  obtain ⟨y, hname, hdecls, hgrown⟩ := exists_add name kind scope s
  have hlocation : (after (add name kind scope) s).location = s.location := by cases name <;> rfl
  refine ⟨y, hname, ?_, hgrown.trans (extends_edit _ _ _)⟩
  show (after (add name kind scope) s).program.decls.modify (result (add name kind scope) s).index
    (fun x => { x with location := (after (add name kind scope) s).location }) = _
  rw [hdecls, result_add, hlocation]
  exact modify_push _ _ _

theorem result_place (name : Option String) (kind : Kind) (scope : Scope) (s : Draft) :
    result (place name kind scope) s = s.program.nextDecl :=
  result_add name kind scope s

theorem nextExpr_place (name : Option String) (kind : Kind) (scope : Scope) (s : Draft) :
    (after (place name kind scope) s).nextExpr = s.nextExpr :=
  nextExpr_add name kind scope s

theorem declare_unit (name : Option String) (kind : Kind) :
    declare name kind .unit = do
      let d ← place name kind .unit
      addModifier d .toplevel
      return d := rfl

theorem declare_specification (name : Option String) (kind : Kind) (o : DeclId) :
    declare name kind (.specification o) = place name kind (.specification o) := rfl

theorem declare_block (name : Option String) (kind : Kind) (o : DeclId) :
    declare name kind (.block o) = place name kind (.block o) := rfl

theorem declare_typeParameter (name : Option String) {kind : Kind} (o : DeclId)
    (h : kind.category = .typeParameter) :
    declare name kind (.declaration o) = place name kind (.declaration o) := by
  cases kind <;> first | rfl | cases h

theorem declare_member (name : Option String) {kind : Kind} (o : DeclId)
    (h : kind.category ≠ .typeParameter) :
    declare name kind (.declaration o) = do
      let d ← place name kind (.declaration o)
      addMember o d
      return d := by
  cases kind <;> first | rfl | exact absurd rfl h

/-- A class or interface gets a member, and nothing else changes. -/
theorem exists_addMember (o m : DeclId) :
    ∃ f : Declaration → Declaration, addMember o m = edit o f ∧ ∀ x : Declaration, x.Gains [m] (f x) := by
  refine ⟨_, rfl, fun ⟨_, kind, _, _, _, _, _, _⟩ => ?_⟩
  cases kind <;> exact ⟨rfl, rfl, rfl, rfl, rfl, by simp [Declaration.isClassOrInterface_iff,
    Kind.category, Declaration.members]⟩

/-- What is declared comes to the end of the table, whatever else happens to it or to its owner. -/
theorem result_declare (name : Option String) (kind : Kind) (scope : Scope) (s : Draft) :
    result (declare name kind scope) s = s.program.nextDecl := by
  have hplace := result_place name kind scope s
  cases scope with
  | unit => rwa [declare_unit, result_bind, result_bind, result_pure]
  | specification o => rwa [declare_specification]
  | block o => rwa [declare_block]
  | declaration o =>
    by_cases hkind : kind.category = .typeParameter
    · rwa [declare_typeParameter name o hkind]
    · rwa [declare_member name o hkind, result_bind, result_bind, result_pure]

/-- Whatever is declared in what is in the table has its place there. -/
theorem declare_declares (name : Option String) (kind : Kind)
    (h : ∀ o, scope = .declaration o → s.program.hasDecl o = true) :
    ∃ x, x.kind = kind ∧ x.scope = scope ∧ s.Declares name x (after (declare name kind scope) s) := by
  obtain ⟨y, hname, hdecls, hgrown⟩ := exists_place name kind scope s
  have hexpr := nextExpr_place name kind scope s
  cases scope with
  | unit =>
    rw [declare_unit, after_bind, after_bind, after_pure, result_place]
    refine ⟨{ name := y, kind, scope := .unit, location := s.location,
              modifiers := Modifiers.empty.insert .toplevel }, rfl, rfl,
      Program.declares_push ?_ fun d => .inr (by simp), (extends_edit _ _ _).named hname, rfl, hexpr,
      hgrown.trans (extends_edit _ _ _)⟩
    rw [addModifier, decls_edit, hdecls]
    exact modify_push _ _ _
  | specification o =>
    rw [declare_specification]
    exact ⟨_, rfl, rfl, Program.declares_push hdecls fun d => .inr (by simp), hname, rfl, hexpr, hgrown⟩
  | block o =>
    rw [declare_block]
    exact ⟨_, rfl, rfl, Program.declares_push hdecls fun d => .inr (by simp), hname, rfl, hexpr, hgrown⟩
  | declaration o =>
    by_cases hkind : kind.category = .typeParameter
    · rw [declare_typeParameter name o hkind]
      have h' := Program.declares_push hdecls fun d => .inl (Declaration.isTypeParameter_iff.mpr hkind)
      exact ⟨_, rfl, rfl, h', hname, rfl, hexpr, hgrown⟩
    · obtain ⟨f, hf, hgains⟩ := exists_addMember o s.program.nextDecl
      rw [declare_member name o hkind, after_bind, after_bind, after_pure, result_place, hf]
      refine ⟨{ name := y, kind, scope := .declaration o, location := s.location }, rfl, rfl,
        Program.declares_member ?_ rfl ?_ (h o rfl) hgains, (extends_edit _ _ _).named hname, rfl, hexpr,
        hgrown.trans (extends_edit _ _ _)⟩
      · rw [decls_edit, hdecls]
      · rw [Bool.eq_false_iff, ne_eq, Declaration.isTypeParameter_iff]
        exact hkind

end Build

/-! ## What is handed out -/

/-- The declaration `d` that was asked for is the only new one. -/
structure Draft.Gets (s : Draft) (a : Heading) (d : DeclId) (t : Draft) : Prop where
  id : d = s.program.nextDecl
  becomes : ∀ n, s.Becomes n 1 t
  holds : t.program.Holds d a

namespace Draft
variable {s t u : Draft} {a : Heading} {d : DeclId} {name : Option String} {x : Declaration}

theorem Declares.becomes (h : s.Declares name x t) (hblank : x.IsBlank)
    (hscope : ∀ o, x.scope = .declaration o → s.program.hasDecl o = true) (n : Nat) : s.Becomes n 1 t :=
  ⟨.single (.declared x hblank hscope h.declares), h.declares.size, h.nextExpr, h.grown⟩

/-- What is said of a declaration later does not change its heading. -/
theorem Gets.then (h : s.Gets a d t) (h' : ∀ n, t.Becomes n 0 u) : s.Gets a d u where
  id := h.id
  becomes n := (h.becomes n).trans (h' n)
  holds := h.holds.stays (Program.hasDecl_iff.mp h.holds.hasDecl) (h' _).changes (h' 0).grown

end Draft

namespace Build
variable {α : Type} {s : Draft} {n : Nat} {a : Heading} {d o : DeclId} {scope : Scope}

theorem gets_then {m : Build DeclId} {f : DeclId → Build Unit} (h : s.Gets a (result m s) (after m s))
    (h' : ∀ n, (after m s).Becomes n 0 (after (f (result m s)) (after m s))) :
    s.Gets a (result (do let d ← m; f d; return d) s) (after (do let d ← m; f d; return d) s) :=
  h.then h'

theorem Aside.gets_bind {m : Build α} (hm : Aside m) {f : α → Build DeclId}
    (h : (after m s).Gets a (result (f (result m s)) (after m s)) (after (f (result m s)) (after m s))) :
    s.Gets a (result (m >>= f) s) (after (m >>= f) s) where
  id := by rw [result_bind, h.id, Program.nextDecl, Program.nextDecl, (hm s).1]
  becomes n := (hm.becomes n s).trans (h.becomes n)
  holds := h.holds

theorem declare_gets (name : Option String) (kind : Kind) (scope : Scope) (hblank : kind.isBlank = true)
    (hscope : s.program.hasScope scope = true) :
    s.Gets ⟨name, kind.category, scope⟩ (result (declare name kind scope) s)
      (after (declare name kind scope) s) := by
  have howner := Program.hasDecl_of_hasScope hscope
  obtain ⟨x, hkind, hx, h⟩ := declare_declares name kind howner
  refine ⟨result_declare name kind scope s, ?_, x, ?_, h.name, congrArg _ hkind, hx⟩
  · exact h.becomes (Declaration.isBlank_of_kind hkind hblank) (hx ▸ howner)
  · rw [result_declare]
    exact h.declares.new

/-- A declaration with a type. -/
def declareTyped (name : Option String) (kind : Kind) (scope : Scope) (type : TypeId) : Build DeclId := do
  let d ← declare name kind scope
  setType d type
  return d

theorem declareValue_eq (name : String) (scope : Scope) (type : TypeId) :
    declareValue name scope type = declareTyped (some name) .value scope type := rfl

theorem declareMethod_eq (name : Option String) (scope : Scope) (type : TypeId) :
    declareMethod name scope type = declareTyped name (.method { lists := [[]] }) scope type := rfl

theorem declareTyped_gets (name : Option String) (kind : Kind) (scope : Scope) (type : TypeId)
    (hblank : kind.isBlank = true) (hscope : s.program.hasScope scope = true) :
    s.Gets ⟨name, kind.category, scope⟩ (result (declareTyped name kind scope type) s)
      (after (declareTyped name kind scope type) s) :=
  gets_then (declare_gets name kind scope hblank hscope) fun n => becomes_setType n _ type _

theorem declareMethod_gets (name : Option String) (scope : Scope) (type : TypeId)
    (hscope : s.program.hasScope scope = true) :
    s.Gets ⟨name, .method, scope⟩ (result (declareMethod name scope type) s)
      (after (declareMethod name scope type) s) := by
  rw [declareMethod_eq]
  exact declareTyped_gets name (.method { lists := [[]] }) scope type rfl hscope

theorem exists_declareVoidMethod (name : String) (scope : Scope) :
    ∃ f, KeepsLists f ∧ declareVoidMethod name scope = do
      let anything ← coreType Core.anything
      let d ← declareMethod (some name) scope anything
      editKind d f
      return d := by
  refine ⟨_, fun ⟨_, kind, _, _, _, _, _, _⟩ => ?_, rfl⟩
  cases kind <;> simp [Kind.category, Declaration.members, Declaration.parameterLists]

theorem declareVoidMethod_gets (name : String) (scope : Scope)
    (hscope : s.program.hasScope scope = true) :
    s.Gets ⟨some name, .method, scope⟩ (result (declareVoidMethod name scope) s)
      (after (declareVoidMethod name scope) s) := by
  obtain ⟨f, hf, heq⟩ := exists_declareVoidMethod name scope
  rw [heq]
  have haside := Aside.coreType Core.anything
  have hscope' := Program.hasScope_of_size_le hscope (Nat.le_of_eq (congrArg Array.size (haside s).1.symm))
  exact haside.gets_bind (gets_then (declareMethod_gets (some name) scope _ hscope') fun n =>
    becomes_editKind hf n _ _)

theorem declareAnonymous_gets (scope : Scope) (type : TypeId)
    (hscope : s.program.hasScope scope = true) :
    s.Gets ⟨none, .method, scope⟩ (result (declareAnonymous scope type) s)
      (after (declareAnonymous scope type) s) :=
  gets_then (declareMethod_gets none scope type hscope) fun n => becomes_addModifier n _ _ _

theorem declareTypeParameter_gets (name : String) (bounds : List TypeId)
    (ho : s.program.hasDecl o = true) :
    s.Gets ⟨some name, .typeParameter, .declaration o⟩ (result (declareTypeParameter o name bounds) s)
      (after (declareTypeParameter o name bounds) s) :=
  gets_then (declare_gets (some name) (.typeParameter { variance := .invariant, bounds })
    (.declaration o) rfl ho) fun _ => becomes_edit fun _ _ => revises_of_kind_eq rfl rfl rfl id

/-! ## Parameters -/

theorem flatten_appendToLast (q : DeclId) (lists : List (List DeclId)) :
    (appendToLast q lists).flatten = lists.flatten ++ [q] := by
  fun_induction appendToLast q lists with
  | case1 => rfl
  | case2 list => simp
  | case3 list lists _ ih => rw [List.flatten_cons, ih, List.flatten_cons, List.append_assoc]

theorem becomes_appendParameter (hd : s.program.ParameterOf o d)
    (hnew : ∀ x ∈ s.program.decl? o, d ∉ x.parameterLists.flatten) (n : Nat) :
    s.Becomes n 0 (after (appendParameter o d) s) := by
  refine becomes_edit fun ⟨_, kind, _, _, _, _, _, _⟩ hx => ?_
  have hd' := hnew _ hx
  cases kind with
  | method m =>
    exact ⟨rfl, rfl, id, rfl, .inl rfl, .inr ⟨d, flatten_appendToLast d m.lists, hd', hd⟩⟩
  | classType c =>
    refine ⟨rfl, rfl, id, rfl, .inl rfl, .inr ⟨d, ?_, hd', hd⟩⟩
    cases hc : c.list <;> simp [Declaration.parameterLists, hc]
  | _ => exact ⟨rfl, rfl, id, rfl, .inl rfl, .inl rfl⟩

/-- Makes a declaration the last parameter of its owner. -/
def enlist (owner d : DeclId) : Build Unit := do
  addModifier d .parameter
  appendParameter owner d

/-- What stands in `o` and is not marked yet can be enlisted. -/
theorem becomes_enlist {x : Declaration} (hs : s.program.Tidy) (hx : x ∈ s.program.decl? d)
    (hscope : x.scope = .declaration o) (hplain : x.isParameter = false) (hlt : o < d) (n : Nat) :
    s.Becomes n 0 (after (enlist o d) s) := by
  have hmark : s.program.Alters d _ (after (addModifier d .parameter) s).program := alters_edit d _ s
  rw [enlist, after_bind]
  refine (becomes_addModifier n d .parameter s).trans (becomes_appendParameter ?_ ?_ n)
  · obtain ⟨y, hy, rfl⟩ := hmark.this x hx
    exact ⟨_, hy, Modifiers.has_insert.mpr (.inl rfl), hscope, hlt⟩
  · intro y hy hmem
    have hne : o ≠ d := fun h => Nat.lt_irrefl _ (h ▸ hlt)
    rw [hmark.others o hne] at hy
    obtain ⟨z, hz, hz', -⟩ := hs.parameters o y hy d hmem
    rw [Option.mem_unique hx hz, hz'] at hplain
    cases hplain

/-- A parameter at the end of the last list of its owner. -/
def declareListed (owner : DeclId) (name : String) (kind : Kind) (type : TypeId) : Build DeclId := do
  let d ← declareTyped (some name) kind (.declaration owner) type
  enlist owner d
  return d

theorem declareParameter_eq (owner : DeclId) (name : String) (type : TypeId) :
    declareParameter owner name type = declareListed owner name .value type := rfl

theorem declareFunctionalParameter_eq (owner : DeclId) (name : String) (type : TypeId) :
    declareFunctionalParameter owner name type =
      declareListed owner name (.method { lists := [[]] }) type := rfl

theorem isParameter_declareTyped (name : Option String) (kind : Kind) (scope : Scope) (type : TypeId)
    (hscope : s.program.hasScope scope = true) :
    ∃ x ∈ (after (declareTyped name kind scope type) s).program.decl?
        (result (declareTyped name kind scope type) s),
      x.scope = scope ∧ x.isParameter = false := by
  obtain ⟨x, -, hx, h⟩ := declare_declares name kind (Program.hasDecl_of_hasScope hscope)
  have hnew := h.declares.new
  rw [← result_declare name kind scope s] at hnew
  rw [declareTyped, after_bind, after_bind, after_pure, result_bind, result_bind, result_pure]
  obtain ⟨y, hy, rfl⟩ := (alters_edit _ (fun x => { x with type := some type }) _).this x hnew
  exact ⟨_, hy, hx, h.isParameter⟩

theorem declareListed_gets (hs : s.program.Tidy) (name : String) (kind : Kind) (type : TypeId)
    (hblank : kind.isBlank = true) (ho : s.program.hasDecl o = true) :
    s.Gets ⟨some name, kind.category, .declaration o⟩ (result (declareListed o name kind type) s)
      (after (declareListed o name kind type) s) := by
  have h := declareTyped_gets (some name) kind (.declaration o) type hblank ho
  obtain ⟨x, hx, hscope, hplain⟩ := isParameter_declareTyped (some name) kind (.declaration o) type ho
  have hlt : o < result (declareTyped (some name) kind (.declaration o) type) s := by
    rw [h.id]
    exact Program.hasDecl_iff.mp ho
  exact gets_then h (becomes_enlist ((h.becomes 0).changes.tidy hs) hx hscope hplain hlt)

end Build

/-! ## Setters -/

/-- The declaration in its final place as the parameter of a setter. -/
def Declaration.moved (setter : DeclId) (type : TypeId) (location : Location)
    (x : Declaration) : Declaration :=
  { x with
    scope := .declaration setter
    modifiers := x.modifiers.insert .parameter
    type := some type
    location }

namespace Build
variable {s : Draft} {n : Nat} {scope : Scope}

/-- The parameter of a setter is first at unit level, where it is a member of nothing, and moves once the
setter is there. -/
theorem becomes_move {p setter : DeclId} {name : Option String} (hn : n ≤ p.index)
    (hunit : ∀ x ∈ s.program.decl? p, x.scope = .unit)
    (hsetter : s.program.Holds setter ⟨name, .setter, scope⟩) (type : TypeId) (location : Location) :
    s.Becomes n 0 (after (edit p (Declaration.moved setter type location)) s) := by
  obtain ⟨z, hz, -, hcategory, -⟩ := hsetter
  have hplain : z.isClassOrInterface = false := by
    rw [Bool.eq_false_iff, ne_eq, Declaration.isClassOrInterface_iff, hcategory]
    simp
  refine becomes_edit fun x hx => ⟨rfl, rfl, fun h => Modifiers.has_insert.mpr (.inr h), rfl, ?_, .inl rfl⟩
  exact .inr ⟨hn, hunit x hx, setter, rfl, z, hz, hplain⟩

/-- The drafts are those after the parameter is there, after the setter is, and after the move. -/
theorem moved_holds {s s₁ s₂ : Draft} {x : Declaration} {setter : DeclId} {name : Option String}
    (h : s.Declares name x s₁) (hkind : x.kind = .value) (hx : x.scope = .unit)
    (hg : s₁.Gets ⟨name, .setter, scope⟩ setter s₂) (type : TypeId) (location : Location) {t : Draft}
    (ht : t = after (edit s.program.nextDecl (Declaration.moved setter type location)) s₂) :
    s.Becomes s.program.decls.size 2 t ∧
      t.program.Holds s.program.nextDecl ⟨name, .value, .declaration setter⟩ ∧
      t.program.Holds setter ⟨name, .setter, scope⟩ := by
  have hlt : s.program.nextDecl.index < s₁.program.decls.size := by
    rw [h.declares.size]
    exact Nat.lt_succ_self _
  obtain ⟨y, hy, hs⟩ := (hg.becomes _).changes.stays hlt h.declares.new
  have hunit : ∀ z ∈ s₂.program.decl? s.program.nextDecl, z.scope = .unit := by
    intro z hz
    rw [Option.mem_unique hz hy, hs.scope, hx]
  have hblank := Declaration.isBlank_of_kind hkind rfl
  have hadded := h.becomes hblank (by simp [hx]) s.program.decls.size
  have hmove := becomes_move (p := s.program.nextDecl) (Nat.le_refl _) hunit hg.holds type location
  have halters := alters_edit s.program.nextDecl (Declaration.moved setter type location) s₂
  rw [← ht] at hmove halters
  refine ⟨(hadded.trans (hg.becomes _)).trans hmove, ?_, ?_⟩
  · obtain ⟨z, hz, rfl⟩ := halters.this y hy
    refine ⟨_, hz, ?_, hs.category.trans (congrArg _ hkind), rfl⟩
    show t.program.Named y.name name
    rw [hs.name]
    exact ((hg.becomes 0).grown.trans hmove.grown).named h.name
  · obtain ⟨z, hz, hname, hrest⟩ := hg.holds
    have hne : setter ≠ s.program.nextDecl := by
      rw [hg.id]
      exact (Program.ne_nextDecl (Program.hasDecl_iff.mpr hlt)).symm
    rw [← halters.others setter hne] at hz
    exact ⟨z, hz, hmove.grown.named hname, hrest⟩

theorem declareSetter_gets (name : String) (scope : Scope) (type : TypeId)
    (hscope : s.program.hasScope scope = true) :
    ∃ setter, setter.index = s.program.decls.size + 1 ∧
      result (declareSetter name scope type) s = (setter, s.program.nextDecl) ∧
      s.Becomes s.program.decls.size 2 (after (declareSetter name scope type) s) ∧
      (after (declareSetter name scope type) s).program.Holds s.program.nextDecl
        ⟨some name, .value, .declaration setter⟩ ∧
      (after (declareSetter name scope type) s).program.Holds setter ⟨some name, .setter, scope⟩ := by
  obtain ⟨x, hkind, hx, h⟩ := add_declares (some name) .value s
  have hscope' := Program.hasScope_of_size_le hscope (Nat.le_of_succ_le h.declares.size.ge)
  have hg := (declare_gets (some name) (.setter s.program.nextDecl) scope rfl hscope').then
    fun n => (Aside.duplicate type).becomes n _
  have hsetter : (result (declare (some name) (.setter s.program.nextDecl) scope)
      (after (add (some name) .value .unit) s)).index = s.program.decls.size + 1 := by
    rw [hg.id]
    exact h.declares.size
  exact ⟨_, hsetter, rfl, moved_holds h hkind hx hg _ _ rfl⟩

end Build

end Unbox
