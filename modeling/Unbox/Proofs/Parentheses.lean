import Unbox.Proofs.Brackets
import Unbox.Proofs.Fixpoint

/-!
# Parentheses are transparent

A tree and the tree without some of its parentheses are visited side by side.

* `Bracketing.Beside s s'` : the states of the two visits, between two steps that both make;
* `Layer` : for one kind of tree, how it is peeled, and what the rule around it needs;
* `Bracketing.Abreast` : a step besides the rules keeps the states side by side;
* `Bracketing.Sim` : so do the visits of a tree, and if the peeled tree is visited without a failure,
  the visited tree is peeled to what it was visited to;
* `Bracketing.visit_sim` : this holds of every expression, and likewise for every kind of tree;
* `Bracketing.visit_peel` : parentheses that are added change no flag of the tree.
-/

namespace Unbox
open Visitor

namespace Marks.Agree
variable {t : Target} {literal : TypeId → Prop} {m m' : Marks}

/-- Quiet touches that box what is boxed already change no finding. -/
theorem quiets {F : DeclId → Prop} (h : Relation.ReflTransGen (Quiet t F) m m')
    (hF : ∀ d, F d → m.unboxed d = some false) : m.Agree t literal m' := by
  induction h with
  | refl => exact .refl m
  | tail _ hq ih => exact ih.trans (.quiet hq fun d hd => (ih.unboxed d).trans (hF d hd))

theorem forceBoxed (h : m.Agree t literal m') (d : DeclId) :
    (m.forceBoxed d).Agree t literal (m'.forceBoxed d) := by
  refine ⟨fun e => ?_, h.raw, h.bounds⟩
  simp only [Marks.forceBoxed, updateDeclaration, Column.get_update, h.declarations]

end Marks.Agree

namespace Target
variable {t : Target} {s : Visit} {l : Location}

theorem forceAt_of_ok {d : DeclId} (h : (t.forceAt l d s).2.failure = none) :
    (t.forceAt l d s).2 = { s with marks := s.marks.forceBoxed d } := by
  obtain ⟨hf, s', hs'⟩ := exists_of_attempt h
  obtain ⟨x, -, hx⟩ := exists_of_bind_eq_ok hs'
  cases hx
  exact congrArg Prod.snd (attempt_of_ok hf hs')

theorem forces_of_ok {ds : List DeclId} (h : (ds.forM (t.forceAt l) s).2.failure = none) :
    (ds.forM (t.forceAt l) s).2 = { s with marks := ds.foldl Marks.forceBoxed s.marks } := by
  induction ds generalizing s with
  | nil => rfl
  | cons d ds ih =>
    have hrun : (List.forM (d :: ds) (t.forceAt l) s).2 =
      (ds.forM (t.forceAt l) (t.forceAt l d s).2).2 := rfl
    rw [hrun] at h ⊢
    rw [ih h, forceAt_of_ok (hasDecl_of_forces h).1]
    rfl

end Target

namespace Marks
variable {m : Marks}

theorem raw_forceBoxed (ds : List DeclId) (a : TypeId) :
    (ds.foldl forceBoxed m).raw a = m.raw a := by
  induction ds generalizing m with
  | nil => rfl
  | cons d ds ih => exact ih

theorem unboxed_forces {ds : List DeclId} {d : DeclId}
    (h : d ∈ ds ∨ m.unboxed d = some false) : (ds.foldl forceBoxed m).unboxed d = some false := by
  induction ds generalizing m with
  | nil => exact h.resolve_left List.not_mem_nil
  | cons e ds ih =>
    refine ih ?_
    rw [unboxed_forceBoxed]
    by_cases hde : d = e
    · exact .inr (if_pos hde)
    · rw [if_neg hde]
      exact h.imp_left fun hd => (List.mem_cons.mp hd).resolve_left hde

end Marks

theorem Marks.Agree.forces {t : Target} {literal : TypeId → Prop} {m m' : Marks}
    (h : m.Agree t literal m') (ds : List DeclId) :
    (ds.foldl Marks.forceBoxed m).Agree t literal (ds.foldl Marks.forceBoxed m') := by
  induction ds generalizing m m' with
  | nil => exact h
  | cons d ds ih => exact ih (h.forceBoxed d)

/-! ## Two visits side by side -/

namespace Bracketing
variable (b : Bracketing)

/-- The state `s` of the visit of a peeled tree and `s'` of the visit of the tree itself. -/
structure Beside (s s' : Visit) : Prop where
  failure : s.failure = none
  failure' : s'.failure = none
  scopes : s'.scopes = s.scopes
  bound : s'.bound = s.bound
  marks : s.marks.Agree b.toTarget (fun _ => False) s'.marks
  near : b.Near s.marks
  boxed : ∀ d ∈ s.bound, b.program.hasDecl d = true ∧ s.marks.unboxed d = some false

variable {b}

namespace Beside
variable {s s' : Visit}

theorem start (scopes : List DeclId) (isRecording : Bool) :
    b.Beside { marks := b.start, scopes, isRecording } { marks := b.start, scopes, isRecording } :=
  ⟨rfl, rfl, rfl, rfl, .refl _, fun _ _ => rfl, List.forall_mem_nil _⟩

theorem enter (h : b.Beside s s') {ds ds' : List DeclId} (heq : ds' = ds) :
    b.Beside { s with scopes := ds } { s' with scopes := ds' } :=
  ⟨h.failure, h.failure', heq, h.bound, h.marks, h.near, h.boxed⟩

theorem bind (h : b.Beside s s') {ds ds' : List DeclId} (heq : ds' = ds)
    (hds : ∀ d ∈ ds, b.program.hasDecl d = true ∧ s.marks.unboxed d = some false) :
    b.Beside { s with bound := ds } { s' with bound := ds' } :=
  ⟨h.failure, h.failure', h.scopes, heq, h.marks, h.near, hds⟩

/-- What agrees with the marks of the peeled tree may take their place. -/
theorem left (h : b.Beside s s') {m : Marks} (hm : s.marks.Agree b.toTarget (fun _ => False) m) :
    b.Beside { s with marks := m } s' := by
  refine ⟨h.failure, h.failure', h.scopes, h.bound, hm.symm.trans h.marks, fun a ha => ?_,
    fun d hd => ?_⟩
  · exact (hm.raw a id).trans (h.near a ha)
  · rw [hm.unboxed]
    exact h.boxed d hd

theorem right (h : b.Beside s s') {m : Marks} (hm : s'.marks.Agree b.toTarget (fun _ => False) m) :
    b.Beside s { s' with marks := m } :=
  ⟨h.failure, h.failure', h.scopes, h.bound, h.marks.trans hm, h.near, h.boxed⟩

end Beside

/-! ## Steps that no rule makes -/

/-- The step `u` of the visit of a peeled tree and `u'` of the visit of the tree itself. -/
structure Abreast (b : Bracketing) (u u' : Visitor Unit) : Prop where
  back : ∀ s, (u s).2.failure = none → s.failure = none
  step : ∀ s s', b.Beside s s' → (u s).2.failure = none → b.Beside (u s).2 (u' s').2

namespace Abreast

/-- Steps that change no finding, of which the second passes if the first does. -/
theorem of_quiets {u u' : Visitor Unit} (hu : ∀ F, Quiets b.toTarget F u)
    (hu' : ∀ F, Quiets b.toTarget F u')
    (hback : ∀ s, (u s).2.failure = none → s.failure = none)
    (hpass : ∀ s, (u s).2.failure = none → Passes u') : b.Abreast u u' := by
  refine ⟨hback, fun s s' h hok => ?_⟩
  have hok' := hpass s hok s' h.failure'
  have hboxed' : ∀ d ∈ s'.bound, b.program.hasDecl d = true ∧ s'.marks.unboxed d = some false := by
    intro d hd
    rw [h.marks.unboxed]
    exact h.boxed d (h.bound ▸ hd)
  obtain ⟨m, failure, hm, hrun, -⟩ := hu _ s fun _ => h.boxed
  obtain ⟨m', failure', hm', hrun', -⟩ := hu' _ s' fun _ => hboxed'
  rw [hrun] at hok ⊢
  rw [hrun'] at hok' ⊢
  have hbeside := (h.left (.quiets hm fun _ => id)).right (.quiets hm' fun _ => id)
  obtain rfl : failure = none := hok
  obtain rfl : failure' = none := hok'
  exact ⟨rfl, rfl, hbeside.scopes, hbeside.bound, hbeside.marks, hbeside.near, hbeside.boxed⟩

theorem receiver (e : Expr) :
    b.Abreast (boxReceiver (Peel.expr b.added e)) (boxReceiver e) :=
  of_quiets (fun _ => .boxReceiver _) (fun _ => .boxReceiver _) (fun _ h => (exists_of_attempt h).1)
    fun _ _ => .boxReceiver e

theorem check (l : Location) (d : DeclId) : b.Abreast (b.checkAt l d) (b.checkAt l d) := by
  refine of_quiets (fun _ => .checkAt l d) (fun _ => .checkAt l d)
    (fun _ h => (exists_of_attempt h).1) fun s hok => ?_
  obtain ⟨-, s', hs'⟩ := exists_of_attempt hok
  obtain ⟨x, hx, -⟩ := exists_of_bind_eq_ok hs'
  exact .checkAt l (Program.hasDecl_of_decl? (Program.decl_eq_ok_iff.mp hx))

/-- Parentheses refer to nothing, so a target in parentheses is not narrowed. -/
theorem narrow (e : Expr) : b.Abreast (b.narrow (Peel.expr b.added e)) (b.narrow e) := by
  refine of_quiets (fun _ => .narrow _) (fun _ => .narrow _) (fun _ h => (exists_of_attempt h).1)
    fun s hok => .narrow fun d hd => ?_
  have hpeel := Target.narrows_of_narrow hok d
  obtain ⟨n, f⟩ := e
  cases f with
  | base | member | constructor => exact hpeel hd
  | _ => cases hd

theorem forces (ds : List DeclId) (l l' : Location) :
    b.Abreast (ds.forM (b.forceAt l)) (ds.forM (b.forceAt l')) := by
  refine ⟨fun s h => (Target.hasDecl_of_forces h).1, fun s s' h hok => ?_⟩
  have hpass : Passes (ds.forM (b.forceAt l')) := .forces l' (Target.hasDecl_of_forces hok).2
  rw [Target.forces_of_ok hok, Target.forces_of_ok (hpass s' h.failure')]
  refine ⟨h.failure, h.failure', h.scopes, h.bound, h.marks.forces ds, fun a ha => ?_,
    fun d hd => ⟨(h.boxed d hd).1, Marks.unboxed_forces (.inr (h.boxed d hd).2)⟩⟩
  exact (Marks.raw_forceBoxed ds a).trans (h.near a ha)

end Abreast

end Bracketing

/-! ## Rules -/

/-- What two visits find for the same form with marks that agree leaves marks that agree. -/
theorem Marks.Agree.find_both {t : Target} {m m' : Marks} {scopes : List DeclId} {n : Node}
    {form : Form} {found found' : Finding} (h : m.Agree t (fun _ => False) m')
    (hf : t.find m scopes n form = .ok found) (hf' : t.find m' scopes n form = .ok found') :
    found.marks.Agree t (fun _ => False) found'.marks := by
  by_cases hlit : ∃ target, form = .typeLiteral (.type target)
  · obtain ⟨target, rfl⟩ := hlit
    obtain ⟨⟨⟩, -, hr⟩ := exists_of_bind_eq_ok hf
    obtain ⟨⟨⟩, -, hr'⟩ := exists_of_bind_eq_ok hf'
    cases hr
    cases hr'
    cases n.type with
    | none => exact h
    | some a =>
      refine ⟨h.declarations, fun c hc => ?_, h.bounds⟩
      have hraw := h.raw c hc
      simp only [Marks.raw, setRaw, updateType, Column.get_update] at hraw ⊢
      by_cases hca : c = a
      · rw [if_pos hca, if_pos hca]
      · rw [if_neg hca, if_neg hca, hraw]
  · have hkeeps {m : Marks} {found : Finding} (hf : t.find m scopes n form = .ok found) :
        m.Agree t (fun _ => False) found.marks :=
      .find hf fun target _ hform _ => hlit ⟨target, hform⟩
    exact (hkeeps hf).symm.trans (h.trans (hkeeps hf'))

namespace Bracketing
variable {b : Bracketing} {n : Node}

/-- Both visits give an expression the same flags and stay side by side, if the rule sees the same. -/
theorem Beside.finish {s s' : Visit} (h : b.Beside s s') {form : Form}
    (hliteral : ∀ target a, form = .typeLiteral (.type target) → n.type = some a → b.literal a)
    (hclear : ∀ e ∈ form.operands, b.Clear e) (hexposes : b.Exposes form)
    (hok : (b.finish n (Peel.form b.added form) s).2.failure = none) :
    ∃ found, b.find s.marks s.scopes n form = .ok found ∧
      b.Beside (b.finish n (Peel.form b.added form) s).2 (b.finish n form s').2 ∧
      (b.finish n (Peel.form b.added form) s).1 =
        .mk { n with flags := found.flags } (Peel.form b.added form) ∧
      (b.finish n form s').1 = .mk { n with flags := found.flags } form := by
  obtain ⟨-, found, hfound⟩ := Target.exists_of_finish hok
  have hpeel : b.find s.marks s.scopes n (Peel.form b.added form) =
      b.find s.marks s.scopes n form := by
    unfold Target.find
    rw [View.rule_peel h.near n hclear hexposes]
  have hfound₁ := hpeel.symm.trans hfound
  have hflags : (b.find s'.marks s.scopes n form).map Finding.flags = .ok found.flags := by
    rw [Target.find_congr h.marks (fun _ _ _ _ => id) s.scopes n fun _ _ _ _ => False.elim, hfound₁]
    rfl
  obtain ⟨found', hfound', hsame⟩ : ∃ found', b.find s'.marks s.scopes n form = .ok found' ∧
      found'.flags = found.flags := by
    cases hf : b.find s'.marks s.scopes n form with
    | error e =>
      rw [hf] at hflags
      cases hflags
    | ok found' =>
      rw [hf] at hflags
      exact ⟨found', rfl, Except.ok.inj hflags⟩
  have hmarks := h.marks.find_both hfound₁ hfound'
  have hfinds := Marks.Agree.find hfound₁ hliteral
  rw [Target.finish_of_ok h.failure hfound,
    Target.finish_of_ok h.failure' (by rw [h.scopes]; exact hfound')]
  refine ⟨found, hfound₁, ⟨h.failure, h.failure', h.scopes, h.bound, hmarks, fun a ha => ?_,
    fun d hd => ?_⟩, rfl, by rw [hsame]⟩
  · exact (hfinds.raw a ha).trans (h.near a ha)
  · rw [hfinds.unboxed]
    exact h.boxed d hd

/-- An expression that is no added parentheses is clear once it has its flags. -/
theorem Clear.of_found {m : Marks} {scopes : List DeclId} {form : Form} {found : Finding}
    (hfound : b.find m scopes n form = .ok found) (hclear : ∀ e ∈ form.operands, b.Clear e)
    (hpeel : Peel.expr b.added (.mk { n with flags := found.flags } form) =
      .mk { n with flags := found.flags } (Peel.form b.added form)) :
    b.Clear (.mk { n with flags := found.flags } form) := by
  constructor
  · rw [hpeel]
    rfl
  · rw [hpeel]
    rfl
  · intro a ha
    obtain ⟨⟨⟩, hcheck, -⟩ := exists_of_bind_eq_ok hfound
    exact Target.hasType_of_checkType hcheck ha
  · intro m _
    rw [hpeel]
    rfl
  · intro target hform
    obtain rfl : form = .typeLiteral (.type target) := hform
    exact Target.raw_of_find hfound
  · intro a c hform
    obtain rfl : form = .binary .andThen a c := hform
    exact (hclear c (List.mem_cons_of_mem a List.mem_cons_self)).flags

theorem Encloses.inTable {e : Expr} (h : b.Encloses n e)
    (he : ∀ a ∈ e.type, b.program.hasType a = true) : ∀ c ∈ n.type, b.program.hasType c = true := by
  intro c hc
  have htype := h.type
  rw [Option.mem_def.mp hc, Option.map_some, eq_comm, Option.map_eq_some_iff] at htype
  obtain ⟨a, ha, hform⟩ := htype
  obtain ⟨form, hin⟩ : ∃ form, b.program.form? a = some form :=
    Option.isSome_iff_exists.mp (by simpa [Program.form?, Program.hasType] using he a ha)
  exact Program.hasType_of_form? (hform.symm.trans hin)

/-- The rule for parentheses gives the flags of what is inside, which denotes no method. -/
theorem Encloses.find {e : Expr} (h : b.Encloses n e)
    (he : ∀ a ∈ e.type, b.program.hasType a = true) (m : Marks) (scopes : List DeclId) :
    b.find m scopes n (.paren e) = .ok ⟨e.flags, m, false⟩ := by
  have hmethod : View.denotesMethod ⟨b.toTarget, m, scopes⟩ e = false := h.reference
  have hflags : View.parenFlags ⟨b.toTarget, m, scopes⟩ e = e.flags := by
    simp [View.parenFlags, hmethod]
  unfold Target.find
  rw [Target.checkType_ok (h.inTable he)]
  exact congrArg (fun flags => Except.ok (Finding.mk flags m false)) hflags

/-- Added parentheses are raw if and only if what is inside is. -/
theorem Encloses.isRaw {e : Expr} {m : Marks} (h : b.Encloses n e) (hown : b.HasOwnType e)
    (hliteral : ∀ target, e.form = .typeLiteral (.type target) → e.flags.raw = true)
    (hm : b.Near m) : (Expr.mk { n with flags := e.flags } (.paren e)).isRaw m = e.isRaw m := by
  have hstart {o : Option TypeId} (ho : ∀ a ∈ o, ¬ b.literal a) :
      o.any m.raw = o.any b.start.raw := by
    cases o with
    | none => rfl
    | some a => exact hm a (ho a rfl)
  have hparen : (Expr.mk { n with flags := e.flags } (.paren e)).isRaw m =
      (e.flags.raw || n.type.any m.raw) := rfl
  rw [hparen, hstart h.fresh, h.raw]
  unfold Expr.isRaw
  by_cases hl : ∃ a ∈ e.type, b.literal a
  · obtain ⟨a, ha, hl⟩ := hl
    obtain ⟨target, hform⟩ := hown a ha hl
    rw [hliteral target hform, Bool.true_or, Bool.true_or]
  · rw [hstart fun a ha hla => hl ⟨a, ha, hla⟩]

/-- Added parentheses are clear if they have the flags of what is inside. -/
theorem Clear.paren {e : Expr} (h : b.Clear e) (henc : b.Encloses n e) (hown : b.HasOwnType e)
    (hn : b.added n.id = true) : b.Clear (.mk { n with flags := e.flags } (.paren e)) := by
  have hpeel : Peel.expr b.added (.mk { n with flags := e.flags } (.paren e)) =
      Peel.expr b.added e := Peel.expr_of_added (n := { n with flags := e.flags }) hn e
  refine ⟨?_, ?_, henc.inTable h.inTable, fun m hm => ?_, nofun, nofun⟩
  · rw [hpeel]
    exact h.flags
  · rw [hpeel]
    exact h.type.trans henc.type.symm
  · rw [hpeel, h.raw m hm]
    exact (henc.isRaw hown h.literal hm).symm

end Bracketing

/-! ## Visits -/

/-- For one kind of tree, how it is peeled, and what the rule of an expression around it needs. -/
structure Layer (α : Type) extends Layout α where
  peel : α → α
  clear : α → Prop

namespace Layer
variable {α β : Type} (b : Bracketing)

def prod (L : Layer α) (M : Layer β) : Layer (α × β) :=
  { L.toLayout.prod M.toLayout with
    peel := fun p => (L.peel p.1, M.peel p.2)
    clear := fun p => L.clear p.1 ∧ M.clear p.2 }

def within (d : DeclId) (L : Layer α) : Layer α :=
  { L.toLayout.within d with peel := L.peel, clear := L.clear }

/-- No rule looks at the parts of such a tree. -/
def plain (L : Layout α) (peel : α → α) : Layer α := { L with peel, clear := fun _ => True }

def expr : Layer Expr := { Layout.expr with peel := Peel.expr b.added, clear := b.Clear }

def all : Layer (List Expr) :=
  { Layout.all with peel := Peel.all b.added, clear := fun es => ∀ e ∈ es, b.Clear e }

def option : Layer (Option Expr) :=
  { Layout.option with peel := Peel.option b.added, clear := fun o => ∀ e ∈ o.toList, b.Clear e }

def cases : Layer (List ValueCase) :=
  { Layout.cases with
    peel := Peel.cases b.added
    clear := fun cs => ∀ e ∈ View.caseResults cs, b.Clear e }

def empty : Layer Unit := plain .empty id
def named : Layer (List NamedArgument) := plain .named (Peel.named b.added)
def conditions : Layer (List Condition) := plain .conditions (Peel.conditions b.added)
def bindings : Layer (List Binding) := plain .bindings (Peel.bindings b.added)
def clause : Layer Clause := plain .clause (Peel.clause b.added)
def parameters : Layer (List Parameter) := plain .parameters (Peel.parameters b.added)
def lists : Layer (List (List Parameter)) := plain .lists (Peel.lists b.added)
def body : Layer Body := plain .body (Peel.body b.added)
def stmt : Layer Stmt := plain .stmt (Peel.stmt b.added)
def block : Layer (List Stmt) := plain .block (Peel.block b.added)
def blockCases : Layer (List BlockCase) := plain .blockCases (Peel.blockCases b.added)

end Layer

namespace Bracketing
variable {α β : Type} {b : Bracketing}

/-- What is asked of an expression of the tree. -/
structure Fits (b : Bracketing) (e : Expr) : Prop where
  encloses : ∀ p ∈ b.bracket? e, b.Encloses p.1 p.2
  own : ∀ p ∈ b.bracket? e, b.HasOwnType p.2
  exposes : b.Exposes e.form

/-- What is asked of the tree that has these sites. -/
structure Admits (b : Bracketing) (sites : List Site) : Prop where
  fits : ∀ site ∈ sites, b.Fits site.expr
  literal : ∀ a, Site.LiteralType sites a → b.literal a

theorem Admits.mono {sites sites' : List Site} (h : b.Admits sites')
    (hsub : ∀ site ∈ sites, ∃ site' ∈ sites', site'.expr = site.expr) : b.Admits sites := by
  refine ⟨fun site hsite => ?_, fun a ⟨site, hsite, hlit⟩ => ?_⟩
  · obtain ⟨site', hsite', hexpr⟩ := hsub site hsite
    exact hexpr ▸ h.fits site' hsite'
  · obtain ⟨site', hsite', hexpr⟩ := hsub site hsite
    exact h.literal a ⟨site', hsite', by rw [hexpr]; exact hlit⟩

/-- The visit `x` of a peeled tree and the visit `y` of the tree `a` itself. -/
structure Sim (b : Bracketing) (L : Layer α) (x y : Visitor α) (a : α) : Prop where
  back : ∀ s, (x s).2.failure = none → s.failure = none
  step : b.Admits (L.sites a) → ∀ s s', b.Beside s s' → (x s).2.failure = none →
    b.Beside (x s).2 (y s').2 ∧ L.peel (y s').1 = (x s).1 ∧ L.clear (y s').1 ∧
      L.bare (y s').1 = L.bare a

namespace Sim
variable {L : Layer α} {M : Layer β} {x y : Visitor α} {a : α}

theorem done (hx : x = pure (L.peel a)) (hy : y = pure a) (hc : L.clear a) : b.Sim L x y a := by
  subst hx hy
  exact ⟨fun _ => id, fun _ s s' h _ => ⟨h, rfl, hc, rfl⟩⟩

theorem first {u u' : Visitor Unit} (h : b.Abreast u u') : b.Sim .empty u u' () :=
  ⟨h.back, fun _ s s' hs hok => ⟨h.step s s' hs hok, rfl, trivial, rfl⟩⟩

theorem pair {x' y' : Visitor β} {a' : β} (h : b.Sim L x y a) (h' : b.Sim M x' y' a') :
    b.Sim (L.prod M) (do
      let p ← x
      let q ← x'
      return (p, q)) (do
      let p ← y
      let q ← y'
      return (p, q)) (a, a') := by
  refine ⟨fun s hok => h.back s (h'.back _ hok), fun hadm s s' hs hok => ?_⟩
  obtain ⟨hb, hp, hc, hbare⟩ := h.step (hadm.mono fun site hm => ⟨site, List.mem_append_left _ hm, rfl⟩)
    s s' hs (h'.back _ hok)
  obtain ⟨hb', hp', hc', hbare'⟩ := h'.step
    (hadm.mono fun site hm => ⟨site, List.mem_append_right _ hm, rfl⟩) _ _ hb hok
  exact ⟨hb', Prod.ext hp hp', ⟨hc, hc'⟩, Prod.ext hbare hbare'⟩

theorem build {x' y' : Visitor β} (h : b.Sim L x y a) (mk : α → β)
    (hx : x' = do return mk (← x)) (hy : y' = do return mk (← y))
    (hp : ∀ p, M.peel (mk p) = mk (L.peel p)) (hs : M.sites (mk a) = L.sites a)
    (hb : ∀ p, M.bare (mk p) = mk (L.bare p)) (hc : ∀ p, L.clear p → M.clear (mk p)) :
    b.Sim M x' y' (mk a) := by
  subst hx hy
  refine ⟨h.back, fun hadm s s' hbeside hok => ?_⟩
  obtain ⟨hb', hpeel, hclear, hbare⟩ := h.step (hs ▸ hadm) s s' hbeside hok
  refine ⟨hb', (hp _).trans (congrArg mk hpeel), hc _ hclear, ?_⟩
  exact (hb _).trans ((congrArg mk hbare).trans (hb a).symm)

theorem inside (d : DeclId) (h : b.Sim L x y a) :
    b.Sim (L.within d) (inside d x) (inside d y) a := by
  refine ⟨fun s => h.back { s with scopes := d :: s.scopes }, fun hadm s s' hs hok => ?_⟩
  have hsites : b.Admits (L.sites a) :=
    hadm.mono fun site hm => ⟨_, List.mem_map_of_mem hm, rfl⟩
  obtain ⟨hb, hrest⟩ := h.step hsites _ _ (hs.enter (congrArg (d :: ·) hs.scopes)) hok
  exact ⟨hb.enter (congrArg List.tail hb.scopes), hrest⟩

theorem chore (h : b.Sim L x y a) {u : α → Visitor Unit}
    (hback : ∀ p s, (u p s).2.failure = none → s.failure = none)
    (hu : ∀ p, b.Abreast (u (L.peel p)) (u p)) :
    b.Sim L (do
      let p ← x
      u p
      return p) (do
      let p ← y
      u p
      return p) a := by
  refine ⟨fun s hok => h.back s (hback _ _ hok), fun hadm s s' hs hok => ?_⟩
  obtain ⟨hb, hp, hrest⟩ := h.step hadm s s' hs (hback _ _ hok)
  have hstep := (hu (y s').1).step (x s).2 (y s').2 hb
  rw [hp] at hstep
  exact ⟨hstep hok, hp, hrest⟩

/-- The variables of an iteration are boxed first and bound then. -/
theorem iteration {x' y' : Visitor β} {a' : β} (ds : List DeclId) (l : α → Location)
    (h : b.Sim L x y a) (h' : b.Sim M x' y' a') :
    b.Sim (L.prod M) (do
      let p ← x
      ds.forM (b.forceAt (l p))
      let q ← binding ds x'
      return (p, q)) (do
      let p ← y
      ds.forM (b.forceAt (l p))
      let q ← binding ds y'
      return (p, q)) (a, a') := by
  have hforces (p q : α) : b.Abreast (ds.forM (b.forceAt (l p))) (ds.forM (b.forceAt (l q))) :=
    .forces ds (l p) (l q)
  have hback (s : Visit) (hok : ((do
      let p ← x
      ds.forM (b.forceAt (l p))
      let q ← binding ds x'
      return (p, q) : Visitor (α × β)) s).2.failure = none) :
      (ds.forM (b.forceAt (l (x s).1)) (x s).2).2.failure = none :=
    let r := (ds.forM (b.forceAt (l (x s).1)) (x s).2).2
    h'.back { r with bound := ds ++ r.bound } hok
  refine ⟨fun s hok => h.back s ((hforces _ a).back _ (hback s hok)), fun hadm s s' hs hok => ?_⟩
  have hokf := hback s hok
  obtain ⟨hb, hp, hc, hbare⟩ := h.step
    (hadm.mono fun site hm => ⟨site, List.mem_append_left _ hm, rfl⟩) s s' hs
    ((hforces _ a).back _ hokf)
  have hbf := (hforces (x s).1 (y s').1).step _ _ hb hokf
  have hboxed : ∀ d ∈ ds ++ (ds.forM (b.forceAt (l (x s).1)) (x s).2).2.bound,
      b.program.hasDecl d = true ∧
        (ds.forM (b.forceAt (l (x s).1)) (x s).2).2.marks.unboxed d = some false := by
    intro d hd
    rcases List.mem_append.mp hd with hd | hd
    · refine ⟨(Target.hasDecl_of_forces hokf).2 d hd, ?_⟩
      rw [Target.forces_of_ok hokf]
      exact Marks.unboxed_forces (.inl hd)
    · exact hbf.boxed d hd
  obtain ⟨hb', hp', hc', hbare'⟩ := h'.step
    (hadm.mono fun site hm => ⟨site, List.mem_append_right _ hm, rfl⟩) _ _
    (hbf.bind (congrArg (ds ++ ·) hbf.bound) hboxed) hok
  exact ⟨hb'.bind (congrArg (List.drop ds.length) hb'.bound)
    fun d hd => hb'.boxed d (List.mem_of_mem_drop hd), Prod.ext hp hp', ⟨hc, hc'⟩,
    Prod.ext hbare hbare'⟩

/-- An expression that is no added parentheses gets its flags after its parts. -/
theorem finish {x' y' : Visitor Expr} (h : b.Sim L x y a) (n : Node) (mk : α → Form)
    (hx : x' = do b.finish n (mk (← x))) (hy : y' = do b.finish n (mk (← y)))
    (hp : ∀ p, Peel.form b.added (mk p) = mk (L.peel p))
    (hn : ∀ flags p, Peel.close b.added { n with flags } (mk p) = .mk { n with flags } (mk p))
    (hs : Site.ofForm (mk a) = L.sites a) (hb : ∀ p, Bare.form (mk p) = mk (L.bare p))
    (hc : ∀ p, L.clear p → ∀ e ∈ (mk p).operands, b.Clear e) :
    b.Sim (.expr b) x' y' (.mk n (mk a)) := by
  subst hx hy
  refine ⟨fun s hok => h.back s (Target.exists_of_finish hok).1, fun hadm s s' hbeside hok => ?_⟩
  have hexposes : b.Exposes (mk a) := (hadm.fits _ List.mem_concat_self).exposes
  have hparts : b.Admits (L.sites a) :=
    hadm.mono fun site hm => ⟨site, List.mem_append_left _ (hs ▸ hm), rfl⟩
  obtain ⟨hparts, hpeel, hclear, hbare⟩ := h.step hparts s s' hbeside (Target.exists_of_finish hok).1
  have hform : Bare.form (mk (y s').1) = Bare.form (mk a) := by rw [hb, hb, hbare]
  have hmk : mk (x s).1 = Peel.form b.added (mk (y s').1) := by rw [hp, hpeel]
  have hliteral : ∀ target c, mk (y s').1 = .typeLiteral (.type target) → n.type = some c →
      b.literal c := by
    intro target c hlit hc
    rw [hlit] at hform
    exact hadm.literal c ⟨_, List.mem_concat_self, ⟨target, Bare.eq_typeLiteral hform.symm⟩, hc⟩
  have hok' : (b.finish n (mk (x s).1) (x s).2).2.failure = none := hok
  rw [hmk] at hok'
  obtain ⟨found, hfound, hbeside, hpeeled, hwhole⟩ :=
    hparts.finish hliteral (hc _ hclear) (hexposes.congr hform) hok'
  have hnode : Peel.expr b.added (.mk { n with flags := found.flags } (mk (y s').1)) =
      .mk { n with flags := found.flags } (Peel.form b.added (mk (y s').1)) := by
    rw [hp]
    exact (congrArg (Peel.close b.added _) (hp _)).trans (hn _ _)
  change b.Beside (b.finish n (mk (x s).1) (x s).2).2 (b.finish n (mk (y s').1) (y s').2).2 ∧
    Peel.expr b.added (b.finish n (mk (y s').1) (y s').2).1 = (b.finish n (mk (x s).1) (x s).2).1 ∧
    b.Clear (b.finish n (mk (y s').1) (y s').2).1 ∧
    Bare.expr (b.finish n (mk (y s').1) (y s').2).1 = Bare.expr (.mk n (mk a))
  rw [hmk, hpeeled, hwhole]
  exact ⟨hbeside, hnode, .of_found hfound (hc _ hclear) hnode,
    congrArg (Expr.mk { n with flags := {} }) hform⟩

theorem paren {e : Expr} (n : Node)
    (h : b.Sim (.expr b) (b.visit (Peel.expr b.added e)) (b.visit e) e) :
    b.Sim (.expr b) (b.visit (Peel.expr b.added (.mk n (.paren e)))) (b.visit (.mk n (.paren e)))
      (.mk n (.paren e)) := by
  cases hn : b.added n.id with
  | false =>
    refine .finish h n .paren ?_ rfl (fun _ => rfl) (fun flags p => if_neg (by simp [hn])) rfl
      (fun _ => rfl) fun p hp => List.forall_mem_singleton.mpr hp
    rw [Peel.expr_of_not_added hn]
    rfl
  | true =>
    rw [Peel.expr_of_added hn]
    refine ⟨h.back, fun hadm s s' hs hok => ?_⟩
    obtain ⟨hb, hpeel, hclear, hbare⟩ := h.step
      (hadm.mono fun site hm => ⟨site, List.mem_append_left _ hm, rfl⟩) s s' hs hok
    have hfits : b.Fits (.mk n (.paren e)) := hadm.fits _ List.mem_concat_self
    have hbracket : (n, e) ∈ b.bracket? (.mk n (.paren e)) := if_pos hn
    have henc : b.Encloses n (b.visit e s').1 := (hfits.encloses _ hbracket).congr hbare
    have hown : b.HasOwnType (b.visit e s').1 := (hfits.own _ hbracket).congr hbare
    have hrun := Target.finish_of_ok hb.failure' (henc.find hclear.inTable _ _)
    change b.Beside _ (b.finish n (.paren (b.visit e s').1) (b.visit e s').2).2 ∧
      Peel.expr b.added (b.finish n (.paren (b.visit e s').1) (b.visit e s').2).1 = _ ∧
      b.Clear (b.finish n (.paren (b.visit e s').1) (b.visit e s').2).1 ∧
      Bare.expr (b.finish n (.paren (b.visit e s').1) (b.visit e s').2).1 =
        Bare.expr (.mk n (.paren e))
    rw [hrun]
    refine ⟨⟨hb.failure, hb.failure', hb.scopes, hb.bound, hb.marks, hb.near, hb.boxed⟩, ?_,
      hclear.paren henc hown hn, congrArg (fun f => Expr.mk { n with flags := {} } (.paren f)) hbare⟩
    exact (Peel.expr_of_added (n := { n with flags := (b.visit e s').1.flags }) hn _).trans hpeel

theorem leaf {x' y' : Visitor Expr} (n : Node) (form : Form) (hx : x' = b.finish n form)
    (hy : y' = b.finish n form) (hp : Peel.form b.added form = form)
    (hn : ∀ flags, Peel.close b.added { n with flags } form = .mk { n with flags } form)
    (hs : Site.ofForm form = []) (hb : Bare.form form = form) (hc : form.operands = []) :
    b.Sim (.expr b) x' y' (.mk n form) := by
  have hpure : b.Sim .empty (pure ()) (pure ()) () := .done rfl rfl trivial
  exact .finish hpure n (fun _ => form) hx hy (fun _ => hp) (fun flags _ => hn flags) hs
    (fun _ => hb) fun _ _ => by rw [hc]; exact List.forall_mem_nil _

end Sim

variable (b : Bracketing)

mutual

theorem visit_sim : (e : Expr) → b.Sim (.expr b) (b.visit (Peel.expr b.added e)) (b.visit e) e
  | .mk n (.literal _) => .leaf n _ rfl rfl rfl (fun _ => rfl) rfl rfl rfl
  | .mk n (.base _ _) => .leaf n _ rfl rfl rfl (fun _ => rfl) rfl rfl rfl
  | .mk n (.constructor _) => .leaf n _ rfl rfl rfl (fun _ => rfl) rfl rfl rfl
  | .mk n (.typeLiteral _) => .leaf n _ rfl rfl rfl (fun _ => rfl) rfl rfl rfl
  | .mk n .this => .leaf n _ rfl rfl rfl (fun _ => rfl) rfl rfl rfl
  | .mk n .super => .leaf n _ rfl rfl rfl (fun _ => rfl) rfl rfl rfl
  | .mk n .outer => .leaf n _ rfl rfl rfl (fun _ => rfl) rfl rfl rfl
  | .mk n (.paren e) => .paren n (visit_sim e)
  | .mk n (.template es) =>
    .finish (visitAll_sim es) n .template rfl rfl (fun _ => rfl) (fun _ _ => rfl) rfl (fun _ => rfl)
      fun _ _ => List.forall_mem_nil _
  | .mk n (.tuple es) =>
    .finish (visitAll_sim es) n .tuple rfl rfl (fun _ => rfl) (fun _ _ => rfl) rfl (fun _ => rfl)
      fun _ _ => List.forall_mem_nil _
  | .mk n (.sequence es) =>
    .finish (visitAll_sim es) n .sequence rfl rfl (fun _ => rfl) (fun _ _ => rfl) rfl (fun _ => rfl)
      fun _ _ => List.forall_mem_nil _
  | .mk n (.member e d op ts) =>
    .finish (visit_sim e) n (.member · d op ts) rfl rfl (fun _ => rfl) (fun _ _ => rfl) rfl
      (fun _ => rfl) fun _ h => List.forall_mem_singleton.mpr h
  | .mk n (.unary op e) =>
    .finish (visit_sim e) n (.unary op) rfl rfl (fun _ => rfl) (fun _ _ => rfl) rfl (fun _ => rfl)
      fun _ h => List.forall_mem_singleton.mpr h
  | .mk n (.present e) =>
    .finish (visit_sim e) n .present rfl rfl (fun _ => rfl) (fun _ _ => rfl) rfl (fun _ => rfl)
      fun _ _ => List.forall_mem_nil _
  | .mk n (.nonempty e) =>
    .finish (visit_sim e) n .nonempty rfl rfl (fun _ => rfl) (fun _ _ => rfl) rfl (fun _ => rfl)
      fun _ _ => List.forall_mem_nil _
  | .mk n (.isOf e type) =>
    .finish (visit_sim e) n (.isOf · type) rfl rfl (fun _ => rfl) (fun _ _ => rfl) rfl (fun _ => rfl)
      fun _ _ => List.forall_mem_nil _
  | .mk n (.spread e) =>
    .finish (visit_sim e) n .spread rfl rfl (fun _ => rfl) (fun _ _ => rfl) rfl (fun _ => rfl)
      fun _ _ => List.forall_mem_nil _
  | .mk n (.call f es) =>
    .finish (.pair (visit_sim f) (visitAll_sim es)) n (fun p => .call p.1 p.2) rfl rfl (fun _ => rfl)
      (fun _ _ => rfl) rfl (fun _ => rfl) fun _ h => List.forall_mem_singleton.mpr h.1
  | .mk n (.callNamed f as) =>
    .finish (.pair (visit_sim f) (visitNamed_sim as)) n (fun p => .callNamed p.1 p.2) rfl rfl
      (fun _ => rfl) (fun _ _ => rfl) rfl (fun _ => rfl) fun _ h => List.forall_mem_singleton.mpr h.1
  | .mk n (.binary op a c) =>
    .finish (.pair (visit_sim a) (visit_sim c)) n (fun p => .binary op p.1 p.2) rfl rfl
      (fun _ => rfl) (fun _ _ => rfl) rfl (fun _ => rfl)
      fun _ h => List.forall_mem_cons.mpr ⟨h.1, List.forall_mem_singleton.mpr h.2⟩
  | .mk n (.element a c) =>
    .finish (.pair (visit_sim a) (visit_sim c)) n (fun p => .element p.1 p.2) rfl rfl (fun _ => rfl)
      (fun _ _ => rfl) rfl (fun _ => rfl) fun _ h => List.forall_mem_singleton.mpr h.1
  | .mk n (.assign a c) =>
    .finish (.chore (.pair (visit_sim a) (visit_sim c)) (u := fun p => b.narrow p.1)
      (fun _ _ h => (exists_of_attempt h).1) fun p => .narrow p.1) n (fun p => .assign p.1 p.2)
      rfl rfl (fun _ => rfl) (fun _ _ => rfl) rfl (fun _ => rfl)
      fun _ h => List.forall_mem_singleton.mpr h.1
  | .mk n (.within a c d) =>
    .finish (.pair (.pair (visit_sim a) (visit_sim c)) (visit_sim d)) n
      (fun p => .within p.1.1 p.1.2 p.2) rfl rfl (fun _ => rfl) (fun _ _ => rfl) rfl (fun _ => rfl)
      fun _ _ => List.forall_mem_nil _
  | .mk n (.choose cs yes no) =>
    .finish (.pair (.pair (visitConditions_sim cs) (visit_sim yes)) (visit_sim no)) n
      (fun p => .choose p.1.1 p.1.2 p.2) rfl rfl (fun _ => rfl) (fun _ _ => rfl) rfl (fun _ => rfl)
      fun _ h => List.forall_mem_cons.mpr ⟨h.1.2, List.forall_mem_singleton.mpr h.2⟩
  | .mk n (.switch e cs otherwise) =>
    .finish (.pair (.pair (visit_sim e) (visitCases_sim cs)) (visitOption_sim otherwise)) n
      (fun p => .switch p.1.1 p.1.2 p.2) rfl rfl (fun _ => rfl) (fun _ _ => rfl) rfl (fun _ => rfl)
      fun _ h => List.forall_mem_append.mpr ⟨h.1.2, h.2⟩
  | .mk n (.letIn bs result) =>
    .finish (.pair (visitBindings_sim bs) (visit_sim result)) n (fun p => .letIn p.1 p.2) rfl rfl
      (fun _ => rfl) (fun _ _ => rfl) rfl (fun _ => rfl) fun _ h => List.forall_mem_singleton.mpr h.2
  | .mk n (.function (some d) lists body) =>
    .finish (.inside d (.pair (visitLists_sim lists) (visitBody_sim body))) n
      (fun p => .function (some d) p.1 p.2) rfl rfl (fun _ => rfl) (fun _ _ => rfl) rfl
      (fun _ => rfl) fun _ _ => List.forall_mem_nil _
  | .mk n (.function none lists body) =>
    .finish (.pair (visitLists_sim lists) (visitBody_sim body)) n (fun p => .function none p.1 p.2)
      rfl rfl (fun _ => rfl) (fun _ _ => rfl) rfl (fun _ => rfl) fun _ _ => List.forall_mem_nil _
  | .mk n (.span e first last) =>
    .finish (.pair (.pair (visit_sim e) (visitOption_sim first)) (visitOption_sim last)) n
      (fun p => .span p.1.1 p.1.2 p.2) rfl rfl (fun _ => rfl) (fun _ _ => rfl) rfl (fun _ => rfl)
      fun _ h => List.forall_mem_singleton.mpr h.1.1
  | .mk n (.comprehension k) =>
    .finish (visitClause_sim k) n .comprehension rfl rfl (fun _ => rfl) (fun _ _ => rfl) rfl
      (fun _ => rfl) fun _ _ => List.forall_mem_nil _

theorem visitAll_sim : (es : List Expr) →
    b.Sim (.all b) (b.visitAll (Peel.all b.added es)) (b.visitAll es) es
  | [] => .done rfl rfl (List.forall_mem_nil _)
  | e :: es =>
    .build (.pair (visit_sim e) (visitAll_sim es)) (fun p => p.1 :: p.2) rfl rfl (fun _ => rfl) rfl
      (fun _ => rfl) fun _ h => List.forall_mem_cons.mpr h

theorem visitOption_sim : (e : Option Expr) →
    b.Sim (.option b) (b.visitOption (Peel.option b.added e)) (b.visitOption e) e
  | none => .done rfl rfl (List.forall_mem_nil _)
  | some e =>
    .build (visit_sim e) some rfl rfl (fun _ => rfl) rfl (fun _ => rfl)
      fun _ h => List.forall_mem_singleton.mpr h

theorem visitNamed_sim : (as : List NamedArgument) →
    b.Sim (.named b) (b.visitNamed (Peel.named b.added as)) (b.visitNamed as) as
  | [] => .done rfl rfl trivial
  | .specified name e :: as =>
    .build (.pair (visit_sim e) (visitNamed_sim as)) (fun p => .specified name p.1 :: p.2) rfl rfl
      (fun _ => rfl) rfl (fun _ => rfl) fun _ _ => trivial
  | .attribute d body :: as =>
    .build (.pair (.inside d (visitBody_sim body)) (visitNamed_sim as))
      (fun p => .attribute d p.1 :: p.2) rfl rfl (fun _ => rfl) rfl (fun _ => rfl) fun _ _ => trivial
  | .method d lists body :: as =>
    .build (.pair (.inside d (.pair (visitLists_sim lists) (visitBody_sim body))) (visitNamed_sim as))
      (fun p => .method d p.1.1 p.1.2 :: p.2) rfl rfl (fun _ => rfl) rfl (fun _ => rfl)
      fun _ _ => trivial
  | .sequenced es :: as =>
    .build (.pair (visitAll_sim es) (visitNamed_sim as)) (fun p => .sequenced p.1 :: p.2) rfl rfl
      (fun _ => rfl) rfl (fun _ => rfl) fun _ _ => trivial

theorem visitConditions_sim : (cs : List Condition) →
    b.Sim (.conditions b) (b.visitConditions (Peel.conditions b.added cs)) (b.visitConditions cs) cs
  | [] => .done rfl rfl trivial
  | .mk test e :: cs =>
    .build (.pair (visit_sim e) (visitConditions_sim cs)) (fun p => .mk test p.1 :: p.2) rfl rfl
      (fun _ => rfl) rfl (fun _ => rfl) fun _ _ => trivial

theorem visitBindings_sim : (bs : List Binding) →
    b.Sim (.bindings b) (b.visitBindings (Peel.bindings b.added bs)) (b.visitBindings bs) bs
  | [] => .done rfl rfl trivial
  | .mk d e :: bs =>
    .build (.pair (visit_sim e) (visitBindings_sim bs)) (fun p => .mk d p.1 :: p.2) rfl rfl
      (fun _ => rfl) rfl (fun _ => rfl) fun _ _ => trivial

theorem visitCases_sim : (cs : List ValueCase) →
    b.Sim (.cases b) (b.visitCases (Peel.cases b.added cs)) (b.visitCases cs) cs
  | [] => .done rfl rfl (List.forall_mem_nil _)
  | .mk es result :: cs =>
    .build (.pair (.pair (visitAll_sim es) (visit_sim result)) (visitCases_sim cs))
      (fun p => .mk p.1.1 p.1.2 :: p.2) rfl rfl (fun _ => rfl) rfl (fun _ => rfl)
      fun _ h => List.forall_mem_cons.mpr ⟨h.1.2, h.2⟩

theorem visitClause_sim : (k : Clause) →
    b.Sim (.clause b) (b.visitClause (Peel.clause b.added k)) (b.visitClause k) k
  | .forIn pattern e next =>
    .build (.iteration pattern.variables Expr.location (visit_sim e) (visitClause_sim next))
      (fun p => Clause.forIn pattern p.1 p.2) rfl rfl (fun _ => rfl) rfl (fun _ => rfl)
      fun _ _ => trivial
  | .onlyIf cs next =>
    .build (.pair (.pair (.first (.forces (cs.filterMap Condition.variable?) .unknown .unknown))
        (visitConditions_sim cs)) (visitClause_sim next))
      (fun p => Clause.onlyIf p.1.2 p.2)
      (congrArg (fun ds : List DeclId => (do
        ds.forM (b.forceAt .unknown)
        let cs ← b.visitConditions (Peel.conditions b.added cs)
        let next ← b.visitClause (Peel.clause b.added next)
        return Clause.onlyIf cs next)) (Peel.variables_conditions cs))
      rfl (fun _ => rfl) rfl (fun _ => rfl) fun _ _ => trivial
  | .yield e =>
    .build (.pair (.first (.receiver e)) (visit_sim e)) (fun p => Clause.yield p.2) rfl rfl
      (fun _ => rfl) rfl (fun _ => rfl) fun _ _ => trivial

theorem visitParameters_sim : (ps : List Parameter) →
    b.Sim (.parameters b) (b.visitParameters (Peel.parameters b.added ps)) (b.visitParameters ps) ps
  | [] => .done rfl rfl trivial
  | .value d initial :: ps =>
    .build (.pair (visitOption_sim initial) (visitParameters_sim ps)) (fun p => .value d p.1 :: p.2)
      rfl rfl (fun _ => rfl) rfl (fun _ => rfl) fun _ _ => trivial
  | .functional d initial lists :: ps =>
    .build (.pair (.pair (visitOption_sim initial) (visitLists_sim lists)) (visitParameters_sim ps))
      (fun p => .functional d p.1.1 p.1.2 :: p.2) rfl rfl (fun _ => rfl) rfl (fun _ => rfl)
      fun _ _ => trivial

theorem visitLists_sim : (lists : List (List Parameter)) →
    b.Sim (.lists b) (b.visitLists (Peel.lists b.added lists)) (b.visitLists lists) lists
  | [] => .done rfl rfl trivial
  | ps :: lists =>
    .build (.pair (visitParameters_sim ps) (visitLists_sim lists)) (fun p => p.1 :: p.2) rfl rfl
      (fun _ => rfl) rfl (fun _ => rfl) fun _ _ => trivial

theorem visitBody_sim : (body : Body) →
    b.Sim (.body b) (b.visitBody (Peel.body b.added body)) (b.visitBody body) body
  | .absent => .done rfl rfl trivial
  | .value e =>
    .build (visit_sim e) Body.value rfl rfl (fun _ => rfl) rfl (fun _ => rfl) fun _ _ => trivial
  | .block ss =>
    .build (visitBlock_sim ss) Body.block rfl rfl (fun _ => rfl) rfl (fun _ => rfl) fun _ _ => trivial

theorem visitStmt_sim : (s : Stmt) →
    b.Sim (.stmt b) (b.visitStmt (Peel.stmt b.added s)) (b.visitStmt s) s
  | .declare head lists body =>
    .build (.pair (.first (.check head.location head.declaration))
      (.inside head.declaration (.pair (visitLists_sim lists) (visitBody_sim body))))
      (fun p => Stmt.declare head p.2.1 p.2.2) rfl rfl (fun _ => rfl) rfl (fun _ => rfl)
      fun _ _ => trivial
  | .specify a c isLazy =>
    .build (.chore (.pair (visit_sim a) (visit_sim c)) (u := fun p => b.narrow p.1)
      (fun _ _ h => (exists_of_attempt h).1) fun p => .narrow p.1)
      (fun p => Stmt.specify p.1 p.2 isLazy) rfl rfl (fun _ => rfl) rfl (fun _ => rfl)
      fun _ _ => trivial
  | .evaluate e =>
    .build (visit_sim e) Stmt.evaluate rfl rfl (fun _ => rfl) rfl (fun _ => rfl) fun _ _ => trivial
  | .returns e =>
    .build (visitOption_sim e) Stmt.returns rfl rfl (fun _ => rfl) rfl (fun _ => rfl)
      fun _ _ => trivial
  | .throws e =>
    .build (visitOption_sim e) Stmt.throws rfl rfl (fun _ => rfl) rfl (fun _ => rfl)
      fun _ _ => trivial
  | .ifElse cs yes no =>
    .build (.pair (.pair (visitConditions_sim cs) (visitBlock_sim yes)) (visitBlock_sim no))
      (fun p => Stmt.ifElse p.1.1 p.1.2 p.2) rfl rfl (fun _ => rfl) rfl (fun _ => rfl)
      fun _ _ => trivial
  | .whileDo cs body =>
    .build (.pair (visitConditions_sim cs) (visitBlock_sim body)) (fun p => Stmt.whileDo p.1 p.2)
      rfl rfl (fun _ => rfl) rfl (fun _ => rfl) fun _ _ => trivial
  | .forIn pattern e body otherwise =>
    .build (.pair (.pair (.chore (visit_sim e)
        (u := fun e => pattern.variables.forM (b.forceAt e.location))
        (fun _ _ h => (Target.hasDecl_of_forces h).1) fun _ => .forces _ _ _)
        (visitBlock_sim body)) (visitBlock_sim otherwise))
      (fun p => Stmt.forIn pattern p.1.1 p.1.2 p.2) rfl rfl (fun _ => rfl) rfl (fun _ => rfl)
      fun _ _ => trivial
  | .switch e cs otherwise =>
    .build (.pair (.pair (visit_sim e) (visitBlockCases_sim cs)) (visitBlock_sim otherwise))
      (fun p => Stmt.switch p.1.1 p.1.2 p.2) rfl rfl (fun _ => rfl) rfl (fun _ => rfl)
      fun _ _ => trivial
  | .block ss =>
    .build (visitBlock_sim ss) Stmt.block rfl rfl (fun _ => rfl) rfl (fun _ => rfl) fun _ _ => trivial
  | .breaks => .done rfl rfl trivial
  | .continues => .done rfl rfl trivial

theorem visitBlock_sim : (ss : List Stmt) →
    b.Sim (.block b) (b.visitBlock (Peel.block b.added ss)) (b.visitBlock ss) ss
  | [] => .done rfl rfl trivial
  | s :: ss =>
    .build (.pair (visitStmt_sim s) (visitBlock_sim ss)) (fun p => p.1 :: p.2) rfl rfl (fun _ => rfl)
      rfl (fun _ => rfl) fun _ _ => trivial

theorem visitBlockCases_sim : (cs : List BlockCase) →
    b.Sim (.blockCases b) (b.visitBlockCases (Peel.blockCases b.added cs)) (b.visitBlockCases cs) cs
  | [] => .done rfl rfl trivial
  | .mk es body :: cs =>
    .build (.pair (.pair (visitAll_sim es) (visitBlock_sim body)) (visitBlockCases_sim cs))
      (fun p => .mk p.1.1 p.1.2 :: p.2) rfl rfl (fun _ => rfl) rfl (fun _ => rfl) fun _ _ => trivial

end

/-! ## Parentheses change nothing -/

/-- The parentheses that were added to a tree, with what they enclose. -/
def brackets (e : Expr) : List (Node × Expr) :=
  (Site.ofExpr e).filterMap fun site => b.bracket? site.expr

variable {b}

/-- Let `e'` be the tree `e` with parentheses put around some of its expressions, of which none denotes
a method. The types of the parentheses are fresh duplicates, and the types of what they enclose belong
to no type literal elsewhere. They neither stand around `a then b` on the left of `else` nor around a
number that has a sign in front and is the argument for a numeric class. Then, if `e` is visited without
a failure, so is `e'`, and without the parentheses it is the same tree, with the same flags. -/
theorem visit_peel (b : Bracketing) (scopes : List DeclId) (isRecording : Bool) (e e' : Expr)
    (he : Peel.expr b.added e' = e) (hencloses : ∀ p ∈ b.brackets e', b.Encloses p.1 p.2)
    (hown : ∀ p ∈ b.brackets e', b.HasOwnType p.2)
    (hexposes : ∀ site ∈ Site.ofExpr e', b.Exposes site.expr.form)
    (hliteral : ∀ a, Site.LiteralType (Site.ofExpr e') a → b.literal a)
    (hok : (b.visit e { marks := b.start, scopes, isRecording }).2.failure = none) :
    (b.visit e' { marks := b.start, scopes, isRecording }).2.failure = none ∧
      Peel.expr b.added (b.visit e' { marks := b.start, scopes, isRecording }).1 =
        (b.visit e { marks := b.start, scopes, isRecording }).1 := by
  subst he
  have hbrackets {site : Site} (hsite : site ∈ Site.ofExpr e') {p : Node × Expr}
      (hp : p ∈ b.bracket? site.expr) : p ∈ b.brackets e' :=
    List.mem_filterMap.mpr ⟨site, hsite, hp⟩
  have hadm : b.Admits (Site.ofExpr e') :=
    ⟨fun site hsite => ⟨fun p hp => hencloses p (hbrackets hsite hp),
      fun p hp => hown p (hbrackets hsite hp), hexposes site hsite⟩, hliteral⟩
  obtain ⟨hb, hpeel, -⟩ := (b.visit_sim e').step hadm _ _ (.start scopes isRecording) hok
  exact ⟨hb.failure', hpeel⟩

end Bracketing

/-! ## A tree with parentheses, and trees in which they show -/

/-- The class of whole numbers and two uses of it, the second one for parentheses. -/
def Program.grouped : Program where
  decls := #[{ name := some ⟨0⟩, kind := .classType {}, scope := .unit }]
  types := #[.nominal ⟨0⟩ [], .nominal ⟨0⟩ []]
  core := ⟨⟨9⟩, ⟨9⟩, ⟨9⟩, ⟨9⟩, ⟨9⟩, ⟨9⟩, ⟨9⟩, ⟨0⟩, ⟨9⟩, ⟨9⟩, ⟨9⟩, ⟨9⟩, ⟨9⟩, ⟨9⟩, ⟨9⟩⟩

namespace Bracketing

/-- The expression 9 is added parentheses; there is no type literal. -/
def grouping : Bracketing where
  program := .grouped
  policy := .standard
  basic := Policy.standard_basicByForm .grouped
  added i := i.index == 9
  start := {}
  literal _ := False

/-- A node of the given number, with a type. -/
def place (id type : Nat) : Node := { id := ⟨id⟩, type := some ⟨type⟩, location := .unknown }

def one : Expr := .mk (place 0 0) (.literal (.natural 1))

/-- `1 then (1) else 1` -/
def chosen : Expr :=
  .mk (place 2 0) (.binary .orElse
    (.mk (place 1 0) (.binary .andThen one (.mk (place 9 1) (.paren one)))) one)

/-- `(1 then 1) else 1` -/
def enclosedThen : Expr :=
  .mk (place 2 0) (.binary .orElse
    (.mk (place 9 1) (.paren (.mk (place 1 0) (.binary .andThen one one)))) one)

/-- The class of whole numbers called with `-(1)`. -/
def enclosedNumber : Expr :=
  .mk (place 3 0) (.call (.mk (place 1 0) (.base (some ⟨0⟩) []))
    [.mk (place 2 0) (.unary .negative (.mk (place 9 1) (.paren one)))])

/-- An `else` finds `1 then (1)` on its left, and takes its first value from the parentheses. -/
theorem visit_peel_chosen :
    let s : Visit := { marks := grouping.start }
    (grouping.visit chosen s).2.failure = none ∧
      Peel.expr grouping.added (grouping.visit chosen s).1 =
        (grouping.visit (Peel.expr grouping.added chosen) s).1 ∧
      (grouping.visit chosen s).1.flags = { unboxed := true } := by
  have hbrackets : grouping.brackets chosen = [(place 9 1, one)] := rfl
  have hsites : Site.ofExpr chosen = [⟨[], one⟩, ⟨[], one⟩, ⟨[], .mk (place 9 1) (.paren one)⟩,
    ⟨[], .mk (place 1 0) (.binary .andThen one (.mk (place 9 1) (.paren one)))⟩, ⟨[], one⟩,
    ⟨[], chosen⟩] := rfl
  obtain ⟨hok, hpeel⟩ := visit_peel grouping [] false _ chosen rfl
    (by
      rw [hbrackets, List.forall_mem_singleton]
      refine ⟨rfl, rfl, rfl, ?_⟩
      rintro _ ⟨⟩ ⟨⟩)
    (by
      rw [hbrackets, List.forall_mem_singleton]
      rintro _ ⟨⟩ ⟨⟩)
    (by
      intro site hsite
      simp only [hsites, List.mem_cons, List.not_mem_nil, or_false] at hsite
      rcases hsite with rfl | rfl | rfl | rfl | rfl | rfl <;> constructor <;> rintro _ _ ⟨⟩
      exact fun _ => rfl)
    (by
      rintro a ⟨site, hsite, ⟨target, hform⟩, -⟩
      simp only [hsites, List.mem_cons, List.not_mem_nil, or_false] at hsite
      rcases hsite with rfl | rfl | rfl | rfl | rfl | rfl <;> cases hform)
    (Option.isNone_iff_eq_none.mp (by decide +kernel))
  exact ⟨hok, hpeel, by decide +kernel⟩

/-- The parentheses of `e` are as they should be, and with and without them the visit succeeds, but the
root gets other flags. -/
def Shows (b : Bracketing) (e : Expr) : Prop :=
  (∀ p ∈ b.brackets e, b.Encloses p.1 p.2) ∧
    (b.visit e { marks := b.start }).2.failure.isNone = true ∧
    (b.visit (Peel.expr b.added e) { marks := b.start }).2.failure.isNone = true ∧
    (b.visit e { marks := b.start }).1.flags ≠
      (b.visit (Peel.expr b.added e) { marks := b.start }).1.flags

/-- Parentheses show around `a then b` on the left of `else`, and around a number behind a sign that is
an argument for a numeric class. -/
theorem parentheses_show : grouping.Shows enclosedThen ∧ grouping.Shows enclosedNumber := by
  have hthen : grouping.brackets enclosedThen =
    [(place 9 1, .mk (place 1 0) (.binary .andThen one one))] := rfl
  have hnumber : grouping.brackets enclosedNumber = [(place 9 1, one)] := rfl
  refine ⟨⟨?_, by decide +kernel⟩, ⟨?_, by decide +kernel⟩⟩
  · rw [hthen, List.forall_mem_singleton]
    refine ⟨rfl, rfl, rfl, ?_⟩
    rintro _ ⟨⟩ ⟨⟩
  · rw [hnumber, List.forall_mem_singleton]
    refine ⟨rfl, rfl, rfl, ?_⟩
    rintro _ ⟨⟩ ⟨⟩

end Bracketing

end Unbox
