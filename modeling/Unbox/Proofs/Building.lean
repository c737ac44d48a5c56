import Unbox.Draft.Tree
import Unbox.Proofs.Construction
import Unbox.Proofs.Interning

/-!
# What a step of construction does to a draft

* `Build.result`, `Build.after` : what a step hands out and the draft that it leaves;
* `Program.Extends` : names, type references and core of a program are still there in another one;
* `Draft.Becomes n k s t` : from `s` to `t` the program changed step by step, and `k` declarations are
  new; no expression was built;
* `Build.Aside` : steps that touch no declaration; `Build.MakesExpr` : those that build one expression;
* `alters_edit`, `becomes_edit` : what revising a declaration does.
-/

namespace Unbox

/-! ## What stays in the tables -/

/-- Texts and type references are where they were, and the core declarations are the same. -/
structure Program.Extends (p p' : Program) : Prop where
  text : ∀ y t, p.names.text? y = some t → p'.names.text? y = some t
  form : ∀ t f, p.form? t = some f → p'.form? t = some f
  core : p'.core = p.core

theorem Program.Extends.refl (p : Program) : p.Extends p := ⟨fun _ _ => id, fun _ _ => id, rfl⟩

theorem Program.Extends.trans {p q r : Program} (h : p.Extends q) (h' : q.Extends r) : p.Extends r :=
  ⟨fun y t hy => h'.text y t (h.text y t hy), fun t f ht => h'.form t f (h.form t f ht),
    h'.core.trans h.core⟩

/-- `k` declarations are new and no expression is, where `n` declarations were there before the operation
that this is a part of. -/
structure Draft.Becomes (n k : Nat) (s t : Draft) : Prop where
  changes : Program.Changes n s.program t.program
  size : t.program.decls.size = s.program.decls.size + k
  nextExpr : t.nextExpr = s.nextExpr
  grown : s.program.Extends t.program

theorem Draft.Becomes.trans {n j k : Nat} {s t u : Draft} (h : s.Becomes n j t) (h' : t.Becomes n k u) :
    s.Becomes n (j + k) u :=
  ⟨h.changes.trans h'.changes, by rw [h'.size, h.size, Nat.add_assoc], h'.nextExpr.trans h.nextExpr,
    h.grown.trans h'.grown⟩

namespace Build
variable {α β : Type} {s : Draft} {n : Nat}

def result (m : Build α) (s : Draft) : α := (m.run s).1

def after (m : Build α) (s : Draft) : Draft := (m.run s).2

@[simp] theorem result_pure (a : α) (s : Draft) : result (pure a) s = a := rfl

@[simp] theorem after_pure (a : α) (s : Draft) : after (pure a) s = s := rfl

@[simp] theorem result_bind (m : Build α) (f : α → Build β) (s : Draft) :
    result (m >>= f) s = result (f (result m s)) (after m s) := rfl

@[simp] theorem after_bind (m : Build α) (f : α → Build β) (s : Draft) :
    after (m >>= f) s = after (f (result m s)) (after m s) := rfl

/-! ## Steps that touch no declaration -/

/-- Declarations and expressions are not touched. -/
def Aside (m : Build α) : Prop :=
  ∀ s, (after m s).program.decls = s.program.decls ∧ (after m s).nextExpr = s.nextExpr ∧
    s.program.Extends (after m s).program

namespace Aside

theorem becomes {m : Build α} (h : Aside m) (n : Nat) (s : Draft) : s.Becomes n 0 (after m s) := by
  obtain ⟨hdecls, hexpr, hgrown⟩ := h s
  exact ⟨.of_decls_eq hdecls, by rw [hdecls]; rfl, hexpr, hgrown⟩

theorem pure (a : α) : Aside (Pure.pure a : Build α) := fun s => ⟨rfl, rfl, .refl s.program⟩

theorem get : Aside (MonadState.get : Build Draft) := fun s => ⟨rfl, rfl, .refl s.program⟩

theorem program : Aside Build.program := fun s => ⟨rfl, rfl, .refl s.program⟩

theorem bind {m : Build α} {f : α → Build β} (hm : Aside m) (hf : ∀ a, Aside (f a)) :
    Aside (m >>= f) := by
  intro s
  obtain ⟨hdecls, hexpr, hgrown⟩ := hm s
  obtain ⟨hdecls', hexpr', hgrown'⟩ := hf (result m s) (after m s)
  exact ⟨hdecls'.trans hdecls, hexpr'.trans hexpr, hgrown.trans hgrown'⟩

theorem map {m : Build α} (f : α → β) (hm : Aside m) : Aside (f <$> m) := hm

theorem ite {c : Prop} [Decidable c] {m m' : Build α} (hm : Aside m) (hm' : Aside m') :
    Aside (if c then m else m') := by
  split
  · exact hm
  · exact hm'

theorem standAt (location : Location) : Aside (Build.standAt location) :=
  fun s => ⟨rfl, rfl, .refl s.program⟩

theorem modifyMarks (f : Marks → Marks) : Aside (Build.modifyMarks f) :=
  fun s => ⟨rfl, rfl, .refl s.program⟩

theorem intern (text : String) : Aside (Build.intern text) := fun _ =>
  ⟨rfl, rfl, fun _ _ h => Names.text?_intern_of_some h text, fun _ _ => id, rfl⟩

theorem newType (form : TypeForm) : Aside (Build.newType form) := by
  refine fun s => ⟨rfl, rfl, fun _ _ => id, fun t f h => ?_, rfl⟩
  show (s.program.types.push form)[t.index]? = some f
  have hlt := (Array.getElem?_eq_some_iff.mp h).1
  rw [Array.getElem?_push, if_neg (Nat.ne_of_lt hlt)]
  exact h

theorem typeOf (d : DeclId) : Aside (Build.typeOf d) := newType _

theorem coreType (select : Core → DeclId) : Aside (Build.coreType select) :=
  program.bind fun _ => typeOf _

theorem optional (t : TypeId) : Aside (Build.optional t) := (coreType _).bind fun _ => newType _

theorem sequential (t : TypeId) : Aside (Build.sequential t) := program.bind fun _ => newType _

theorem duplicate (t : TypeId) : Aside (Build.duplicate t) := by
  refine program.bind fun p => ?_
  cases p.form? t with
  | none => exact .pure t
  | some form => exact (newType form).bind fun _ => (modifyMarks _).bind fun _ => .pure _

theorem duplicateOption (t : Option TypeId) : Aside (Build.duplicateOption t) := by
  cases t with
  | none => exact .pure none
  | some t => exact .map some (duplicate t)

theorem typeOfDeclaration (d : DeclId) : Aside (Build.typeOfDeclaration d) :=
  program.bind fun _ => duplicateOption _

theorem callType (primary : Expr) (type : Option TypeId) : Aside (Build.callType primary type) := by
  cases type with
  | none => exact duplicateOption _
  | some t => exact .pure (some t)

theorem declaration (d : DeclId) (body : Body) : Aside (Build.declaration d body) :=
  get.bind fun _ => .pure _

theorem setUnboxed (d : DeclId) (b : Bool) : Aside (Build.setUnboxed d b) :=
  get.bind fun _ => .ite ((modifyMarks _).bind fun _ => .pure true) (.pure false)

theorem forceBoxed (d : DeclId) : Aside (Build.forceBoxed d) :=
  program.bind fun _ => .ite (modifyMarks _) (.pure ())

theorem setRaw (t : TypeId) (b : Bool) : Aside (Build.setRaw t b) :=
  program.bind fun _ => .ite (modifyMarks _) (.pure ())

theorem setUnderlying (t : TypeId) (u : Option MachineType) : Aside (Build.setUnderlying t u) :=
  program.bind fun _ => .ite (modifyMarks _) (.pure ())

end Aside

theorem form?_newType (form : TypeForm) (s : Draft) :
    (after (newType form) s).program.form? (result (newType form) s) = some form := by
  show (s.program.types.push form)[s.program.types.size]? = some form
  rw [Array.getElem?_push, if_pos rfl]

@[simp] theorem result_program (s : Draft) : result program s = s.program := rfl

theorem form?_duplicate (t : TypeId) (s : Draft) :
    result (duplicate t) s = t ∨ ∃ form, (after (duplicate t) s).program.form? t = some form ∧
      (after (duplicate t) s).program.form? (result (duplicate t) s) = some form := by
  cases hform : s.program.form? t with
  | none =>
    refine .inl ?_
    rw [duplicate, result_bind, result_program, hform]
    rfl
  | some form =>
    refine .inr ⟨form, ((Aside.duplicate t) s).2.2.form t form hform, ?_⟩
    rw [duplicate, result_bind, after_bind, result_program, hform]
    exact form?_newType form s

/-! ## Steps that build an expression -/

/-- One expression is built, with the next free id, and no declaration is touched. -/
def MakesExpr (m : Build Expr) : Prop :=
  ∀ s, (result m s).id = ⟨s.nextExpr⟩ ∧ (after m s).nextExpr = s.nextExpr + 1 ∧
    (after m s).program.decls = s.program.decls ∧ s.program.Extends (after m s).program

theorem makesExpr_newExpr (form : Form) (type : Option TypeId) : MakesExpr (newExpr form type) :=
  fun s => ⟨rfl, rfl, rfl, .refl s.program⟩

theorem Aside.makesExpr {m : Build α} {f : α → Build Expr} (hm : Aside m) (hf : ∀ a, MakesExpr (f a)) :
    MakesExpr (m >>= f) := by
  intro s
  obtain ⟨hdecls, hexpr, hgrown⟩ := hm s
  obtain ⟨hid, hexpr', hdecls', hgrown'⟩ := hf (result m s) (after m s)
  rw [hexpr] at hid hexpr'
  exact ⟨hid, hexpr', hdecls'.trans hdecls, hgrown.trans hgrown'⟩

theorem MakesExpr.ite {c : Prop} [Decidable c] {m m' : Build Expr} (hm : MakesExpr m)
    (hm' : MakesExpr m') : MakesExpr (if c then m else m') := by
  split
  · exact hm
  · exact hm'

/-- The type is found first, then the expression is built. -/
theorem Aside.newExpr {m : Build α} (hm : Aside m) (form : α → Form) (type : α → Option TypeId) :
    MakesExpr (m >>= fun a => Build.newExpr (form a) (type a)) :=
  hm.makesExpr fun _ => makesExpr_newExpr _ _

/-! ## Revising a declaration -/

theorem decls_edit (d : DeclId) (f : Declaration → Declaration) (s : Draft) :
    (after (edit d f) s).program.decls = s.program.decls.modify d.index f := rfl

theorem extends_edit (d : DeclId) (f : Declaration → Declaration) (s : Draft) :
    s.program.Extends (after (edit d f) s).program := ⟨fun _ _ => id, fun _ _ => id, rfl⟩

theorem alters_edit (d : DeclId) (f : Declaration → Declaration) (s : Draft) :
    s.program.Alters d (fun x y => y = f x) (after (edit d f) s).program := by
  have hdecl (e : DeclId) : (after (edit d f) s).program.decl? e =
      if d.index = e.index then (s.program.decl? e).map f else s.program.decl? e :=
    Array.getElem?_modify
  refine ⟨Array.size_modify, fun e he => ?_, fun x hx => ⟨f x, ?_, rfl⟩⟩
  · rw [hdecl, if_neg fun h => he (congrArg Id.mk h.symm)]
  · rw [hdecl, if_pos rfl, Option.mem_def.mp hx]
    rfl

theorem becomes_edit {d : DeclId} {f : Declaration → Declaration}
    (hf : ∀ x ∈ s.program.decl? d, Program.Revises n s.program d x (f x)) :
    s.Becomes n 0 (after (edit d f) s) where
  changes := .single (.revised d ((alters_edit d f s).mono fun x hx _ h => h ▸ hf x hx))
  size := Array.size_modify
  nextExpr := rfl
  grown := extends_edit d f s

theorem revises_of_kind_eq {p : Program} {d : DeclId} {x y : Declaration} (hname : y.name = x.name)
    (hkind : y.kind = x.kind) (hscope : y.scope = x.scope)
    (hparameter : x.isParameter = true → y.isParameter = true) : Program.Revises n p d x y where
  name := hname
  category := by rw [hkind]
  isParameter := hparameter
  members := by rw [Declaration.members, Declaration.members, hkind]
  scope := .inl hscope
  lists := .inl (by rw [Declaration.parameterLists, Declaration.parameterLists, hkind])

theorem becomes_setType (n : Nat) (d : DeclId) (t : TypeId) (s : Draft) :
    s.Becomes n 0 (after (setType d t) s) :=
  becomes_edit fun _ _ => revises_of_kind_eq rfl rfl rfl id

theorem becomes_refines (n : Nat) (d refined : DeclId) (s : Draft) :
    s.Becomes n 0 (after (refines d refined) s) :=
  becomes_edit fun _ _ => revises_of_kind_eq rfl rfl rfl id

theorem becomes_addModifier (n : Nat) (d : DeclId) (m : Modifier) (s : Draft) :
    s.Becomes n 0 (after (addModifier d m) s) :=
  becomes_edit fun _ _ => revises_of_kind_eq rfl rfl rfl fun h => Modifiers.has_insert.mpr (.inr h)

theorem has_foldl_insert {ms : List Modifier} {t : Modifiers} {m : Modifier} (h : t.has m = true) :
    (ms.foldl Modifiers.insert t).has m = true := by
  induction ms generalizing t with
  | nil => exact h
  | cons a ms ih => exact ih (Modifiers.has_insert.mpr (.inr h))

theorem becomes_addModifiers (n : Nat) (d : DeclId) (ms : Modifiers) (s : Draft) :
    s.Becomes n 0 (after (addModifiers d ms) s) :=
  becomes_edit fun _ _ => revises_of_kind_eq rfl rfl rfl has_foldl_insert

/-- A change of kinds that leaves category, members and parameters as they are. -/
def KeepsLists (f : Kind → Kind) : Prop :=
  ∀ x : Declaration, (f x.kind).category = x.kind.category ∧
    ({ x with kind := f x.kind } : Declaration).members = x.members ∧
    ({ x with kind := f x.kind } : Declaration).parameterLists.flatten = x.parameterLists.flatten

theorem becomes_editKind {f : Kind → Kind} (hf : KeepsLists f) (n : Nat) (d : DeclId) (s : Draft) :
    s.Becomes n 0 (after (editKind d f) s) :=
  becomes_edit fun x _ => ⟨rfl, (hf x).1, id, (hf x).2.1, .inl rfl, .inl (hf x).2.2⟩

theorem becomes_addParameterList (n : Nat) (d : DeclId) (s : Draft) :
    s.Becomes n 0 (after (addParameterList d) s) := by
  refine becomes_editKind (fun ⟨_, kind, _, _, _, _, _, _⟩ => ?_) n d s
  cases kind <;> simp [Kind.category, Declaration.members, Declaration.parameterLists]

theorem becomes_extend (n : Nat) (d : DeclId) (parent : TypeId) (s : Draft) :
    s.Becomes n 0 (after (extend d parent) s) := by
  refine becomes_editKind (fun ⟨_, kind, _, _, _, _, _, _⟩ => ?_) n d s
  cases kind <;> simp [Kind.category, Declaration.members, Declaration.parameterLists]

theorem becomes_satisfy (n : Nat) (d : DeclId) (t : TypeId) (s : Draft) :
    s.Becomes n 0 (after (satisfy d t) s) := by
  refine becomes_editKind (fun ⟨_, kind, _, _, _, _, _, _⟩ => ?_) n d s
  cases kind <;> simp [Kind.category, Declaration.members, Declaration.parameterLists]

end Build

end Unbox
