import Unbox.Proofs.Phases

/-!
# What a rule looks at

A rule looks at the marks of declarations, at the raw marks of declared types and of the type of a
primary expression, and at what is known about bounds.

* `Marks.Agree t literal m m'` : `m'` has the findings of `m`, apart from the raw marks of the types
  in `literal` and from how much is remembered about bounds;
* `View.rule_congr` : a rule finds the same flags with marks that agree, if no declaration has such
  a type and every primary expression that has one is raw itself;
* `Marks.Agree.quiet`, `Marks.Agree.find` : the steps of a visit keep the agreement.
-/

namespace Unbox

namespace Marks
variable {t : Target} {literal : TypeId → Prop} {m m' m'' : Marks}

/-- What a rule looks at is the same, apart from the raw marks of the types in `literal`. -/
structure Agree (t : Target) (literal : TypeId → Prop) (m m' : Marks) : Prop where
  declarations : ∀ d, m'.declarations.get d = m.declarations.get d
  raw : ∀ a, ¬literal a → m'.raw a = m.raw a
  bounds : SameAnswers t.policy t.program m.bounds m'.bounds

namespace Agree

theorem refl (m : Marks) : m.Agree t literal m := ⟨fun _ => rfl, fun _ _ => rfl, .refl _⟩

theorem symm (h : m.Agree t literal m') : m'.Agree t literal m :=
  ⟨fun d => (h.declarations d).symm, fun a ha => (h.raw a ha).symm, h.bounds.symm⟩

theorem trans (h : m.Agree t literal m') (h' : m'.Agree t literal m'') : m.Agree t literal m'' :=
  ⟨fun d => (h'.declarations d).trans (h.declarations d),
    fun a ha => (h'.raw a ha).trans (h.raw a ha), h.bounds.trans h'.bounds⟩

/-- To box what is boxed already changes no finding. -/
theorem quiet {F : DeclId → Prop} (h : Quiet t F m m') (hF : ∀ d, F d → m.unboxed d = some false) :
    m.Agree t literal m' := by
  have hdeclarations := h.keeps_declaration hF
  cases h with
  | force => exact ⟨hdeclarations, fun _ _ => rfl, .refl _⟩
  | underlying =>
    refine ⟨hdeclarations, fun a _ => ?_, .refl _⟩
    simp only [Marks.raw, setUnderlying, updateType, Column.get_update]
    split <;> rfl
  | decide _ _ _ h | erase _ _ h | distrust _ _ h | raw _ _ h | bounds _ _ h => exact h.elim

theorem find {scopes : List DeclId} {n : Node} {form : Form} {found : Finding}
    (h : t.find m scopes n form = .ok found)
    (hl : ∀ target a, form = .typeLiteral (.type target) → n.type = some a → literal a) :
    m.Agree t literal found.marks := by
  obtain ⟨⟨⟩, -, h⟩ := exists_of_bind_eq_ok h
  have hw := View.rule_writes h
  generalize found.marks = m' at hw ⊢
  cases hw with
  | nothing => exact .refl m
  | raw hform ha =>
    refine ⟨fun _ => rfl, fun b hb => ?_, .refl _⟩
    simp only [Marks.raw, setRaw, updateType, Column.get_update]
    rw [if_neg]
    rintro rfl
    exact hb (hl _ _ hform ha)
  | bounds _ hs => exact ⟨fun _ => rfl, fun _ _ => rfl, hs.keeps _⟩

end Agree

end Marks

/-- The expression whose raw mark the rule of a form looks at. -/
def Form.primary? : Form → Option Expr
  | .member primary _ _ _ | .call primary _ | .callNamed primary _ | .element primary _
  | .span primary _ _ => some primary
  | _ => none

/-- A type that may become raw is the type of no declaration. -/
def Program.Apart (p : Program) (literal : TypeId → Prop) : Prop :=
  ∀ x ∈ p.decls, ∀ a ∈ x.type, ¬literal a

/-- If the type of the expression may become raw, the expression is raw itself. -/
def Expr.ShowsRaw (literal : TypeId → Prop) (e : Expr) : Prop :=
  ∀ a ∈ e.type, literal a → e.flags.raw = true

theorem Expr.isRaw_congr {t : Target} {literal : TypeId → Prop} {m m' : Marks} {e : Expr}
    (h : m.Agree t literal m') (he : e.ShowsRaw literal) : e.isRaw m' = e.isRaw m := by
  unfold isRaw
  cases ha : e.type with
  | none => rfl
  | some a =>
    by_cases hl : literal a
    · rw [he a ha hl, Bool.true_or, Bool.true_or]
    · rw [Option.any_some, Option.any_some, h.raw a hl]

namespace View
variable {v : View} {m' : Marks} {literal : TypeId → Prop}

theorem declarationFlags_congr (h : v.marks.Agree v.toTarget literal m')
    (hp : v.program.Apart literal) {d : DeclId} {x : Declaration}
    (hx : v.program.decl? d = some x) :
    declarationFlags { v with marks := m' } d x = v.declarationFlags d x := by
  have hraw : x.type.any m'.raw = x.type.any v.marks.raw := by
    cases ha : x.type with
    | none => rfl
    | some a => exact h.raw a (hp x (Array.mem_of_getElem? hx) a ha)
  simp only [declarationFlags, Marks.isUnboxed, Marks.unboxed, Marks.typeErased, Marks.isUntrusted,
    Marks.untrusted, h.declarations, hraw]

theorem baseFlags_congr (h : v.marks.Agree v.toTarget literal m') (hp : v.program.Apart literal)
    (l : Location) (d : DeclId) :
    baseFlags { v with marks := m' } l d = v.baseFlags l d := by
  unfold baseFlags
  cases hx : v.program.decl d l with
  | error e => rfl
  | ok x =>
    simp only [bind, Except.bind, declarationFlags_congr h hp (Program.decl_eq_ok_iff.mp hx)]

theorem erasedThrough_congr (h : v.marks.Agree v.toTarget literal m') {primary : Expr}
    (he : primary.ShowsRaw literal) (member : Declaration) :
    erasedThrough { v with marks := m' } primary member = v.erasedThrough primary member := by
  unfold erasedThrough
  rw [Expr.isRaw_congr h he]

theorem callFlags_congr (h : v.marks.Agree v.toTarget literal m') {primary : Expr}
    (he : primary.ShowsRaw literal) (l : Location) (es : List Expr) :
    callFlags { v with marks := m' } l primary es = v.callFlags l primary es := by
  unfold callFlags
  rw [Expr.isRaw_congr h he]
  rfl

theorem memberFinding_congr (h : v.marks.Agree v.toTarget literal m') (hp : v.program.Apart literal)
    {primary : Expr} (he : primary.ShowsRaw literal) (l : Location) (d : DeclId)
    (op : MemberOperator) :
    (memberFinding { v with marks := m' } l primary d op).map Finding.flags =
      (v.memberFinding l primary d op).map Finding.flags := by
  unfold memberFinding
  cases hx : v.program.decl d l with
  | error e => rfl
  | ok x =>
    have hflags := declarationFlags_congr h hp (Program.decl_eq_ok_iff.mp hx)
    simp only [bind, Except.bind, hflags, erasedThrough_congr h he]
    cases op with
    | plain | spread => rfl
    | safe =>
      cases ha : x.type with
      | none => rfl
      | some a =>
        have hsteady := (mentionsForeignErased_inquiry (v := v) a).steady
        exact congrArg (fun foreign => Except.ok
          { v.declarationFlags d x with
            unboxed := false
            typeErased := (v.declarationFlags d x).typeErased || v.erasedThrough primary x
            untrusted := (v.declarationFlags d x).untrusted || foreign })
          (hsteady.answer _ _ h.bounds)

theorem indexFinding_congr (h : v.marks.Agree v.toTarget literal m') (hp : v.program.Apart literal)
    {primary : Expr} (he : primary.ShowsRaw literal) (l : Location) (name : String) :
    (indexFinding { v with marks := m' } l primary name).map Finding.flags =
      (v.indexFinding l primary name).map Finding.flags := by
  unfold indexFinding
  dsimp only
  split
  · rfl
  · next d _ =>
    cases hx : v.program.decl d l with
    | error e => rfl
    | ok x =>
      have hflags := declarationFlags_congr h hp (Program.decl_eq_ok_iff.mp hx)
      simp only [bind, Except.bind, hflags, erasedThrough_congr h he, Expr.isRaw_congr h he]
      rfl

theorem map_plain (v : View) (flags : Except Failure Flags) :
    Except.map Finding.flags (do return v.plain (← flags)) = flags := by
  cases flags <;> rfl

/-- With marks that agree a rule finds the same flags, or fails in the same way. -/
theorem rule_congr (h : v.marks.Agree v.toTarget literal m') (hp : v.program.Apart literal)
    (n : Node) {form : Form} (he : ∀ e ∈ form.primary?, e.ShowsRaw literal) :
    (rule { v with marks := m' } n form).map Finding.flags =
      (v.rule n form).map Finding.flags := by
  cases form with
  | base d ts =>
    cases d with
    | none => rfl
    | some d =>
      exact (map_plain _ _).trans ((baseFlags_congr h hp n.location d).trans (map_plain _ _).symm)
  | member primary d op ts =>
    cases d with
    | none => rfl
    | some d => exact memberFinding_congr h hp (he primary rfl) n.location d op
  | call primary es =>
    have hflags := callFlags_congr h (he primary rfl) n.location es
    exact (map_plain _ _).trans (hflags.trans (map_plain _ _).symm)
  | callNamed primary as =>
    have hflags := callFlags_congr h (he primary rfl) n.location []
    exact (map_plain _ _).trans (hflags.trans (map_plain _ _).symm)
  | element primary i | span primary first last =>
    exact indexFinding_congr h hp (he primary rfl) n.location _
  | typeLiteral target => cases target <;> rfl
  | _ => rfl

end View

namespace Target
variable {t : Target}

theorem find_congr {literal : TypeId → Prop} {m m' : Marks} (h : m.Agree t literal m')
    (hp : t.program.Apart literal) (scopes : List DeclId) (n : Node) {form : Form}
    (he : ∀ e ∈ form.primary?, e.ShowsRaw literal) :
    (t.find m' scopes n form).map Finding.flags = (t.find m scopes n form).map Finding.flags := by
  unfold find
  cases t.checkType n with
  | error e => rfl
  | ok _ => exact View.rule_congr (v := { t with marks := m, scopes }) h hp n he

end Target

end Unbox
