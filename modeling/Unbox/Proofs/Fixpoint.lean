import Mathlib.Data.List.Pairwise
import Unbox.Proofs.Locality
import Unbox.Proofs.Recording

/-!
# The flags that a run leaves behind are those that the rules find

Flags are found while marks are still written. What is written later does not matter to the rules
that were applied before, so the rules find the same flags with the marks at the end of the run.

* `Site.Settled t I base site` : with all marks in `I` the rule of the site finds the flags that the
  site has;
* `Visits.returns` : if all sites that a visit left behind are settled, the next visit returns the
  same tree;
* `OwnTypes p units` : a type is that of one expression only, and not of a declaration;
* `Account.agrees` : every rule was applied with marks that agree with those at the start;
* `Target.visitUnits_settled` : so after a visit of such units all sites are settled;
* `Target.run_settles` : the same for a run, and for a second visit of its units in any order.
-/

namespace Unbox
open Visitor

/-! ## Visiting again -/

/-- With all marks in `I` the rule finds the flags that the site has. -/
def Site.Settled (t : Target) (I : Marks → Prop) (base : List DeclId) (site : Site) : Prop :=
  ∀ m, I m → ∃ found, t.find m (site.scopes ++ base) site.expr.node site.expr.form = .ok found ∧
    found.flags = site.expr.flags ∧ I found.marks

theorem Site.Settled.inside {t : Target} {I : Marks → Prop} {base : List DeclId} {d : DeclId}
    {site : Site} (h : (site.within d).Settled t I base) : site.Settled t I (d :: base) := by
  intro m hm
  obtain ⟨found, hfound⟩ := h m hm
  rw [Site.within, List.append_assoc] at hfound
  exact ⟨found, hfound⟩

/-- At the place where `s₀` is, with marks in `I` and no failure. -/
structure Visit.Ready (I : Marks → Prop) (s₀ s : Visit) : Prop where
  scopes : s.scopes = s₀.scopes
  bound : s.bound = s₀.bound
  failure : s.failure = none
  marks : I s.marks

/-- A step that passed once passes from every state. -/
theorem Chore.passes_of_passed {t : Target} {q : Part} {u : Visitor Unit} {s : Visit}
    (h : Chore t q u) (hs : (u s).2.failure = none) : Passes u := by
  cases h with
  | forces l _ => exact .forces l (Target.hasDecl_of_forces hs).2
  | receiver => exact .boxReceiver _
  | narrow => exact .narrow (Target.narrows_of_narrow hs)
  | check =>
    obtain ⟨-, s', h⟩ := exists_of_attempt hs
    obtain ⟨x, hx, -⟩ := exists_of_bind_eq_ok h
    exact .checkAt _ (Program.hasDecl_of_decl? (Program.decl_eq_ok_iff.mp hx))

section Again
variable {t : Target} {F : DeclId → Prop} {I : Marks → Prop}

namespace Visit.Ready
variable {s₀ s₁ s : Visit}

theorem sound (h : Ready I s₀ s) (hs₀ : s₀.Sound t F) (hf : s₀.failure = none) : s.Sound t F := by
  intro _ d hd
  rw [h.bound] at hd
  exact hs₀ hf d hd

theorem leads (h : Ready I s₀ s) (hl : Leads t F s₀ s₁) : Ready I s₁ s :=
  ⟨h.scopes.trans hl.scopes.symm, h.bound.trans hl.bound.symm, h.failure, h.marks⟩

theorem back (h : Ready I s₁ s) (hl : Leads t F s₀ s₁) : Ready I s₀ s :=
  ⟨h.scopes.trans hl.scopes, h.bound.trans hl.bound, h.failure, h.marks⟩

theorem enter (h : Ready I s₀ s) (d : DeclId) :
    Ready I { s₀ with scopes := d :: s₀.scopes } { s with scopes := d :: s.scopes } :=
  ⟨congrArg (d :: ·) h.scopes, h.bound, h.failure, h.marks⟩

theorem bind (h : Ready I s₀ s) (ds : List DeclId) :
    Ready I { s₀ with bound := ds ++ s₀.bound } { s with bound := ds ++ s.bound } :=
  ⟨h.scopes, congrArg (ds ++ ·) h.bound, h.failure, h.marks⟩

theorem unbind {ds : List DeclId} (h : Ready I { s₀ with bound := ds ++ s₀.bound } s) :
    Ready I s₀ { s with bound := s.bound.drop ds.length } :=
  ⟨h.scopes, (congrArg (List.drop ds.length) h.bound).trans List.drop_left, h.failure, h.marks⟩

theorem step {u : Visitor Unit} (h : Ready I s₀ s) (hs : s.Sound t F) (hu : Quiets t F u)
    (hp : Passes u) (hI : ∀ m m', I m → Quiet t F m m' → I m') : Ready I s₀ (u s).2 := by
  obtain ⟨m, failure, hm, heq, -⟩ := hu s hs
  have hm : I m := by
    clear heq
    induction hm with
    | refl => exact h.marks
    | tail _ hq ih => exact hI _ _ ih hq
  have hf := hp s h.failure
  rw [heq] at hf ⊢
  exact ⟨h.scopes, h.bound, hf, hm⟩

end Visit.Ready

/-- With `visit` the tree `a` is returned as it is, whatever the marks in `I` are. -/
def Visit.Returns {α : Type} (I : Marks → Prop) (s₀ : Visit) (visit : α → Visitor α) (a : α) :
    Prop :=
  ∀ s, Ready I s₀ s → (visit a s).1 = a ∧ Ready I s₀ (visit a s).2

theorem Target.finish_of_settled {n : Node} {form : Form} {s₀ s : Visit}
    (h : Site.Settled t I s₀.scopes { expr := .mk n form }) (hs : Visit.Ready I s₀ s) :
    (t.finish n form s).1 = .mk n form ∧ Visit.Ready I s₀ (t.finish n form s).2 := by
  obtain ⟨found, hfound, hflags, hmarks⟩ := h s.marks hs.marks
  rw [List.nil_append, ← hs.scopes] at hfound
  have hout := finish_of_ok hs.failure hfound
  rw [hflags] at hout
  exact ⟨congrArg Prod.fst hout, (congrArg Prod.snd hout) ▸
    ⟨hs.scopes, hs.bound, hs.failure, hmarks⟩⟩

/-- What was visited without a failure is returned as it is by the next visit, if the sites that
were left behind are settled. -/
theorem Visits.returns {α : Type} {L : Layout α} {ps : List Part} {a : α} {visit : α → Visitor α}
    (h : Visits t L ps visit a) (hF : Forces F ps) (hI : ∀ m m', I m → Quiet t F m m' → I m')
    {s₀ : Visit} (hs₀ : s₀.Sound t F) (hf : (visit a s₀).2.failure = none)
    (hsites : ∀ site ∈ L.sites (visit a s₀).1, site.Settled t I s₀.scopes) :
    Visit.Returns I s₀ visit (visit a s₀).1 := by
  induction h generalizing s₀ with
  | @done _ _ _ a _ hv =>
    intro s hs
    have hout : (_ : Visitor _) s₀ = (a, s₀) := congrFun hv s₀
    rw [hout, hv]
    exact ⟨rfl, hs⟩
  | pair hx hy ihx ihy =>
    intro s hs
    have hl := hx.leads hF.left hs₀
    have hsound := hs₀.leads hl
    obtain ⟨ha, hr⟩ := ihx hF.left hs₀ ((hy.leads hF.right hsound).failure hf)
      (fun site hsite => hsites site (List.mem_append_left _ hsite)) s hs
    obtain ⟨hb, hr⟩ := ihy hF.right hsound hf
      (fun site hsite => hl.scopes ▸ hsites site (List.mem_append_right _ hsite)) _ (hr.leads hl)
    exact ⟨Prod.ext ha hb, hr.back hl⟩
  | @build _ _ _ _ _ a visit visit' h mk hv hm _ ih =>
    rw [hv a rfl] at hf hsites ⊢
    intro s hs
    obtain ⟨ha, hr⟩ := ih hF hs₀ hf (fun site hsite => hsites site (hm _ ▸ hsite)) s hs
    change (visit' (mk (visit a s₀).1) s).1 = mk (visit a s₀).1 ∧
      Visit.Ready I s₀ (visit' (mk (visit a s₀).1) s).2
    rw [hv _ (h.bare s₀)]
    exact ⟨congrArg mk ha, hr⟩
  | @finish _ _ _ a visit visit' n h mk hv hm _ ih =>
    rw [hv n a rfl] at hf hsites ⊢
    obtain ⟨hf, found, hfound⟩ := Target.exists_of_finish hf
    have hout := congrArg Prod.fst (Target.finish_of_ok hf hfound)
    change ∀ site ∈ Layout.expr.sites (t.finish n (mk (visit a s₀).1) (visit a s₀).2).1, _ at hsites
    change Visit.Returns I s₀ visit' (t.finish n (mk (visit a s₀).1) (visit a s₀).2).1
    rw [hout] at hsites ⊢
    rw [Layout.sites_expr, Expr.form, hm] at hsites
    intro s hs
    obtain ⟨ha, hr⟩ := ih hF.tail hs₀ hf
      (fun site hsite => hsites site (List.mem_append_left _ hsite)) s hs
    rw [hv _ _ (h.bare s₀)]
    change (t.finish _ (mk (visit (visit a s₀).1 s).1) (visit (visit a s₀).1 s).2).1 = _ ∧
      Visit.Ready I s₀ (t.finish _ (mk (visit (visit a s₀).1 s).1) (visit (visit a s₀).1 s).2).2
    rw [ha]
    exact Target.finish_of_settled (hsites _ List.mem_concat_self) hr
  | inside d h ih =>
    intro s hs
    have hinside : Visit.Sound t F { s₀ with scopes := d :: s₀.scopes } := hs₀
    obtain ⟨ha, hr⟩ := ih hF hinside hf
      (fun site hsite => (hsites _ (List.mem_map_of_mem hsite)).inside) _ (hs.enter d)
    exact ⟨ha, congrArg List.tail hr.scopes, hr.bound, hr.failure, hr.marks⟩
  | note _ _ _ ih => exact ih hF.tail hs₀ hf hsites
  | @chore _ _ _ a visit h u hu ih =>
    intro s hs
    obtain ⟨q, hq, hu⟩ := hu _ (h.bare s₀)
    have hl := h.leads hF hs₀
    have hquiets := hu.quiets (hF q hq)
    have hf' := (hquiets.leads (hs₀.leads hl)).failure hf
    obtain ⟨ha, hr⟩ := ih hF hs₀ hf' hsites s hs
    refine ⟨ha, ?_⟩
    change Visit.Ready I s₀ (u (visit (visit a s₀).1 s).1 (visit (visit a s₀).1 s).2).2
    rw [ha]
    exact hr.step (hr.sound hs₀ (hl.failure hf')) hquiets (hu.passes_of_passed hf) hI
  | @iteration _ _ _ _ _ _ a b visit visit' ds l hd hx hy ihx ihy =>
    intro s hs
    obtain ⟨q, hq, hd⟩ := hd
    have hds : ∀ d ∈ ds, F d := fun d hdd => hF.left q hq d (hd d hdd)
    have hquiets : Quiets t F (ds.forM (t.forceAt (l (visit a s₀).1))) := .forces _ hds
    have hl := hx.leads hF.left hs₀
    have hl' := hl.trans (hquiets.leads (hs₀.leads hl))
    have hsound := sound_binding (l := l (visit a s₀).1) (hs₀.leads hl) hds
    have hf' := (hy.leads hF.right hsound).failure hf
    obtain ⟨hfx, hpass⟩ := Target.hasDecl_of_forces hf'
    obtain ⟨ha, hr⟩ := ihx hF.left hs₀ hfx
      (fun site hsite => hsites site (List.mem_append_left _ hsite)) s hs
    have hr := (hr.step (hr.sound hs₀ (hl.failure hfx)) hquiets (.forces _ hpass) hI).leads hl'
    obtain ⟨hb, hr⟩ := ihy hF.right hsound hf
      (fun site hsite => hl'.scopes ▸ hsites site (List.mem_append_right _ hsite)) _ (hr.bind ds)
    let next (b : _) (l : Location) : Visitor _ := do
      ds.forM (t.forceAt l)
      binding ds (visit' b)
    change ((visit (visit a s₀).1 s).1,
      (next _ (l (visit (visit a s₀).1 s).1) (visit _ s).2).1) = _ ∧
      Visit.Ready I s₀ (next _ (l (visit (visit a s₀).1 s).1) (visit _ s).2).2
    rw [ha]
    exact ⟨Prod.ext rfl hb, hr.unbind.back hl'⟩

theorem Visit.Returns.mapM {α : Type} {visit : α → Visitor α} {s₀ : Visit} {as : List α}
    (h : ∀ a ∈ as, Returns I s₀ visit a) : Returns I s₀ (List.mapM visit) as := by
  induction as with
  | nil => exact fun s hs => ⟨rfl, hs⟩
  | cons a as ih =>
    intro s hs
    obtain ⟨ha, hr⟩ := h a List.mem_cons_self s hs
    obtain ⟨has, hr⟩ := ih (fun b hb => h b (List.mem_cons_of_mem a hb)) _ hr
    rw [List.mapM_cons]
    exact ⟨congrArg₂ List.cons ha has, hr⟩

/-- Each of the units that were visited, by induction on the units. -/
theorem Target.mapM_returns {units : List SourceUnit}
    (hF : Forces F (units.flatMap SourceUnit.parts))
    (hI : ∀ m m', I m → Quiet t F m m' → I m') {s₀ : Visit} (hs₀ : s₀.Sound t F)
    (hf : (units.mapM t.visitUnit s₀).2.failure = none)
    (hsites : ∀ site ∈ Layout.sources.sites (units.mapM t.visitUnit s₀).1,
      site.Settled t I s₀.scopes) :
    ∀ u ∈ (units.mapM t.visitUnit s₀).1, Visit.Returns I s₀ t.visitUnit u := by
  induction units generalizing s₀ with
  | nil => nofun
  | cons u units ih =>
    rw [List.mapM_cons] at hf hsites ⊢
    have hl := (t.visitUnit_visits u).leads hF.left hs₀
    have hsound := hs₀.leads hl
    have hf' := ((t.mapM_visits units).leads hF.right hsound).failure hf
    refine List.forall_mem_cons.mpr ⟨?_, fun v hv s hs => ?_⟩
    · exact (t.visitUnit_visits u).returns hF.left hI hs₀ hf'
        fun site hsite => hsites site (List.mem_append_left _ hsite)
    · obtain ⟨hv, hr⟩ := ih hF.right hsound hf
        (fun site hsite => hl.scopes ▸ hsites site (List.mem_append_right _ hsite)) v hv s
        (hs.leads hl)
      exact ⟨hv, hr.back hl⟩

end Again

/-! ## Types of their own -/

/-- The types of the expressions of the unit. -/
def SourceUnit.types (u : SourceUnit) : List TypeId := u.sites.filterMap (·.expr.type)

/-- No type is that of two expressions, or of an expression and a declaration. -/
structure OwnTypes (p : Program) (units : List SourceUnit) : Prop where
  expressions : (units.flatMap SourceUnit.types).Nodup
  declarations : ∀ x ∈ p.decls, ∀ a ∈ x.type, a ∉ units.flatMap SourceUnit.types

/-- The type of a type literal among the sites. -/
def Site.LiteralType (sites : List Site) (a : TypeId) : Prop :=
  ∃ site ∈ sites, (∃ target, site.expr.form = .typeLiteral (.type target)) ∧
    site.expr.type = some a

theorem Site.exists_of_primary? {form : Form} {e : Expr} (h : e ∈ form.primary?) :
    ∃ site ∈ Site.ofForm form, site.expr = e := by
  have self (e : Expr) : { expr := e } ∈ Site.ofExpr e := by
    obtain ⟨n, form⟩ := e
    exact List.mem_concat_self
  cases form with
  | member primary | call primary | callNamed primary | element primary | span primary =>
    cases h
    refine ⟨{ expr := e }, ?_, rfl⟩
    simp only [Site.ofForm, List.mem_append, self, true_or]
  | _ => cases h

namespace Visits
variable {t : Target} {α : Type} {L : Layout α} {ps : List Part} {a : α} {visit : α → Visitor α}

/-- A visit returns the expressions that it was given, with other flags at most. -/
theorem expressions_bare (h : Visits t L ps visit a) (s : Visit) :
    (L.sites (visit a s).1).map (fun site => Bare.expr site.expr) =
      (L.sites a).map fun site => Bare.expr site.expr := by
  induction h generalizing s with
  | done _ hv => rw [hv]; rfl
  | pair _ _ ihx ihy | iteration _ _ _ _ _ ihx ihy =>
    simp only [Layout.prod, List.map_append]
    exact congrArg₂ (· ++ ·) (ihx s) (ihy _)
  | build _ mk hv hs _ ih =>
    rw [hv _ rfl, hs]
    refine (congrArg _ (hs _)).trans (ih s)
  | @finish _ _ _ a visit _ n h mk hv hs hb ih =>
    rw [hv n a rfl]
    change (Layout.expr.sites (t.finish n (mk (visit a s).1) (visit a s).2).1).map _ = _
    have hform : Bare.form (mk (visit a s).1) = Bare.form (mk a) := by rw [hb, hb, h.bare s]
    obtain ⟨flags, heq⟩ := Target.exists_finish_eq (t := t) n (mk (visit a s).1) (visit a s).2
    simp only [heq, Layout.sites_expr, Expr.form, hs, List.map_append, ih s, List.map_cons,
      List.map_nil, Bare.expr, hform]
  | inside d _ ih =>
    simp only [Layout.within, List.map_map]
    exact ih _
  | note _ _ _ ih => exact ih s
  | chore _ _ _ ih => exact ih s

theorem types (h : Visits t L ps visit a) (s : Visit) :
    (L.sites (visit a s).1).filterMap (·.expr.type) = (L.sites a).filterMap (·.expr.type) := by
  have hbare := congrArg (List.filterMap Expr.type) (h.expressions_bare s)
  simpa only [List.filterMap_map, Function.comp_def, Bare.type_expr] using hbare

/-- Together with an expression the sites hold its primary expression. -/
theorem primary (h : Visits t L ps visit a) : ∀ site ∈ L.sites a, ∀ e ∈ site.expr.form.primary?,
    ∃ inner ∈ L.sites a, inner.expr = e := by
  induction h with
  | done h => rw [h]; nofun
  | pair _ _ ihx ihy | iteration _ _ _ _ _ ihx ihy =>
    intro site hsite e he
    rcases List.mem_append.mp hsite with hsite | hsite
    · obtain ⟨inner, hi, heq⟩ := ihx site hsite e he
      exact ⟨inner, List.mem_append_left _ hi, heq⟩
    · obtain ⟨inner, hi, heq⟩ := ihy site hsite e he
      exact ⟨inner, List.mem_append_right _ hi, heq⟩
  | build _ _ _ hs _ ih => rwa [hs]
  | finish n _ mk _ hs _ ih =>
    rw [Layout.sites_expr, Expr.form]
    intro site hsite e he
    suffices ∃ inner ∈ Site.ofForm (mk _), inner.expr = e by
      obtain ⟨inner, hi, heq⟩ := this
      exact ⟨inner, List.mem_append_left _ hi, heq⟩
    rcases List.mem_append.mp hsite with hsite | hsite
    · rw [hs] at hsite ⊢
      exact ih site hsite e he
    · cases List.mem_singleton.mp hsite
      exact Site.exists_of_primary? he
  | inside d _ ih =>
    intro site hsite e he
    obtain ⟨outer, ho, rfl⟩ := List.mem_map.mp hsite
    obtain ⟨inner, hi, heq⟩ := ih outer ho e he
    exact ⟨inner.within d, List.mem_map_of_mem hi, heq⟩
  | note _ _ _ ih => exact ih
  | chore _ _ _ ih => exact ih

end Visits

/-! ## Every site is settled -/

theorem Marks.Agree.unboxed {t : Target} {literal : TypeId → Prop} {m m' : Marks}
    (h : m.Agree t literal m') (d : DeclId) : m'.unboxed d = m.unboxed d :=
  congrArg DeclarationMarks.unboxed (h.declarations d)

/-- Every rule was applied with marks that agree with those at the start. -/
theorem Account.agrees {t : Target} {F : DeclId → Prop} {base : List DeclId} {sites : List Site}
    {j j' : Journal} {m₀ : Marks} {literal : TypeId → Prop} (h : Account t F base sites j j')
    (hF : ∀ d, F d → m₀.unboxed d = some false)
    (hl : ∀ a, Site.LiteralType sites a → literal a) (hj : m₀.Agree t literal j.marks) :
    m₀.Agree t literal j'.marks ∧ ∀ site ∈ sites, ∃ m found, m₀.Agree t literal m ∧
      t.find m (site.scopes ++ base) site.expr.node site.expr.form = .ok found ∧
      found.flags = site.expr.flags := by
  induction h with
  | done => exact ⟨hj, nofun⟩
  | quiet hq _ ih =>
    exact ih hl (hj.trans (.quiet hq fun d hd => (hj.unboxed d).trans (hF d hd)))
  | @rule site sites j j' found hr hf _ ih =>
    have hfound : j.marks.Agree t literal found.marks := .find hr fun target a hform ha =>
      hl a ⟨site, List.mem_cons_self, ⟨target, hform⟩, ha⟩
    have hl' : ∀ a, Site.LiteralType sites a → literal a := fun a ⟨inner, hi, hlit⟩ =>
      hl a ⟨inner, List.mem_cons_of_mem site hi, hlit⟩
    obtain ⟨hj', hsites⟩ := ih hl' (hj.trans hfound)
    exact ⟨hj', List.forall_mem_cons.mpr ⟨⟨j.marks, found, hj, hr, hf⟩, hsites⟩⟩

theorem Target.raw_of_find {t : Target} {m : Marks} {scopes : List DeclId} {n : Node}
    {target : TypeId} {found : Finding}
    (h : t.find m scopes n (.typeLiteral (.type target)) = .ok found) : found.flags.raw = true := by
  obtain ⟨⟨⟩, -, h⟩ := exists_of_bind_eq_ok h
  cases h
  rfl

/-- Where no type is that of two expressions, there is one site with this type. -/
theorem Site.eq_of_type {sites : List Site} (h : (sites.filterMap (·.expr.type)).Nodup)
    {site other : Site} (hs : site ∈ sites) (ho : other ∈ sites) {a : TypeId}
    (ha : site.expr.type = some a) (hb : other.expr.type = some a) : site = other := by
  by_contra hne
  let Apart (x y : Site) : Prop := ∀ b, x.expr.type = some b → ∀ c, y.expr.type = some c → b ≠ c
  have hsymm : Std.Symm Apart := ⟨fun x y h b hb c hc => (h c hc b hb).symm⟩
  have hpair : sites.Pairwise Apart := List.pairwise_filterMap.mp h
  exact hpair.forall hs ho hne a ha a hb rfl

namespace Target
variable {t : Target}

/-- After a visit that began with decided declarations, the rule of every site finds its flags with
all marks that agree with those at the start. -/
theorem visitUnits_settled {F : DeclId → Prop} {isRecording : Bool} {m : Marks}
    {units : List SourceUnit} (hF : Forces F (units.flatMap SourceUnit.parts))
    (hb : ∀ d, F d → m.unboxed d = some false) (hown : OwnTypes t.program units)
    (hf : (t.visitUnits isRecording m units).2.failure = none) :
    let sites := Layout.sources.sites (t.visitUnits isRecording m units).1
    let I := m.Agree t (Site.LiteralType sites)
    I (t.visitUnits isRecording m units).2.marks ∧ ∀ site ∈ sites, site.Settled t I [] := by
  intro sites I
  have haccount := (t.mapM_visits units).account hF (.start m _) hf
  obtain ⟨hI, hfound⟩ := haccount.agrees hb (fun _ => id) (.refl m)
  refine ⟨hI, fun site hsite m' hm' => ?_⟩
  have htypes : sites.filterMap (·.expr.type) = units.flatMap SourceUnit.types :=
    ((t.mapM_visits units).types _).trans List.filterMap_flatMap
  have hnodup : (sites.filterMap (·.expr.type)).Nodup := htypes ▸ hown.expressions
  have hapart : t.program.Apart (Site.LiteralType sites) := by
    rintro x hx a ha ⟨inner, hi, -, hia⟩
    refine hown.declarations x hx a ha ?_
    rw [← htypes]
    exact List.mem_filterMap.mpr ⟨inner, hi, hia⟩
  have hprimary : ∀ e ∈ site.expr.form.primary?, e.ShowsRaw (Site.LiteralType sites) := by
    rintro e he a ha ⟨other, ho, ⟨target, hform⟩, hoa⟩
    obtain ⟨inner, hi, rfl⟩ := (t.mapM_visits _).primary site hsite e he
    obtain ⟨_, found, -, hfind, hflags⟩ := hfound other ho
    rw [hform] at hfind
    rw [Site.eq_of_type hnodup hi ho ha hoa, ← hflags]
    exact raw_of_find hfind
  obtain ⟨m₁, found, hm₁, hfind, hflags⟩ := hfound site hsite
  have hcongr := find_congr (hm₁.symm.trans hm') hapart (site.scopes ++ []) site.expr.node hprimary
  rw [hfind] at hcongr
  cases hfind' : t.find m' (site.scopes ++ []) site.expr.node site.expr.form with
  | error e =>
    rw [hfind'] at hcongr
    cases hcongr
  | ok found' =>
    rw [hfind'] at hcongr
    refine ⟨found', rfl, (Except.ok.inj hcongr).trans hflags, hm'.trans (.find hfind' ?_)⟩
    exact fun target a hform ha => ⟨site, hsite, ⟨target, hform⟩, ha⟩

/-- If all sites are settled, the units are returned as they are, in any order and with all marks
that are in `I`. -/
theorem visitUnits_returns {F : DeclId → Prop} {I : Marks → Prop} {isRecording : Bool}
    {m m' : Marks} {units us : List SourceUnit} (again : Bool)
    (hF : Forces F (units.flatMap SourceUnit.parts))
    (hI : ∀ m m', I m → Quiet t F m m' → I m')
    (hf : (t.visitUnits isRecording m units).2.failure = none)
    (hsites : ∀ site ∈ Layout.sources.sites (t.visitUnits isRecording m units).1,
      site.Settled t I [])
    (hus : us.Perm (t.visitUnits isRecording m units).1) (hm' : I m') :
    (t.visitUnits again m' us).1 = us ∧ (t.visitUnits again m' us).2.failure = none ∧
      I (t.visitUnits again m' us).2.marks := by
  have hreturns := mapM_returns hF hI (.start m _) hf hsites
  have hagain := Visit.Returns.mapM fun u hu => hreturns u (hus.mem_iff.mp hu)
  obtain ⟨heq, hr⟩ := hagain { marks := m', isRecording := again } ⟨rfl, rfl, rfl, hm'⟩
  exact ⟨heq, hr.failure, hr.marks⟩

/-- If a run does not fail, and no type is that of two expressions or of an expression and a
declaration, the rule of every expression finds the flags that the run left on it, with the marks at
the end of the run. Another visit of the units in any order does not fail, and it changes neither a
flag nor a finding about a declaration. -/
theorem run_settles (t : Target) (settings : Settings) (m : Marks) (units : List SourceUnit)
    (hrun : (t.run settings m units).result.isOk = true) (hown : OwnTypes t.program units) :
    let out := t.run settings m units
    (∀ u ∈ out.units, ∀ site ∈ u.sites,
      (t.find out.marks site.scopes site.expr.node site.expr.form).map Finding.flags =
        .ok site.expr.flags) ∧
    ∀ isRecording us, us.Perm out.units →
      (t.visitUnits isRecording out.marks us).1 = us ∧
      (t.visitUnits isRecording out.marks us).2.failure = none ∧
      ∀ d, (t.visitUnits isRecording out.marks us).2.marks.declarations.get d =
        out.marks.declarations.get d := by
  obtain ⟨hdecided, hf⟩ := ok_of_run hrun
  obtain ⟨report, hout⟩ := run_of_ok hdecided hf
  rw [hout]
  generalize hm₀ : (Context.decideUnits _ m units).2.marks = m₀ at hf
  let F (d : DeclId) : Prop := ∃ u ∈ units, d ∈ u.forced
  have hF : Forces F (units.flatMap SourceUnit.parts) := .units fun u hu d hd => ⟨u, hu, hd⟩
  have hboxed : ∀ d, F d → m₀.unboxed d = some false := by
    rintro d ⟨u, hu, hd⟩
    rw [← hm₀]
    exact Context.boxed_of_decideUnits hu hd hdecided
  obtain ⟨hI, hsettled⟩ := visitUnits_settled hF hboxed hown hf
  refine ⟨fun u hu site hsite => ?_, fun isRecording us hus => ?_⟩
  · obtain ⟨found, hfound, hflags, -⟩ :=
      hsettled site (List.mem_flatMap.mpr ⟨u, hu, hsite⟩) _ hI
    rw [List.append_nil] at hfound
    rw [hfound, ← hflags]
    rfl
  · obtain ⟨heq, hfailure, hagain⟩ := visitUnits_returns isRecording hF
      (fun m m' hm hq => hm.trans (.quiet hq fun d hd => (hm.unboxed d).trans (hboxed d hd)))
      hf hsettled hus hI
    exact ⟨heq, hfailure, fun d => (hI.symm.trans hagain).declarations d⟩

end Target

/-- The integer class, its attribute and the value, with four uses of the class as a type. -/
def Program.uses : Program :=
  { Program.integers with types := Array.replicate 4 (.nominal ⟨0⟩ []) }

/-- The attribute of a type literal, and the value; every expression has a type of its own. -/
def SourceUnit.literalMember : List SourceUnit :=
  let node (id : Nat) : Node := { id := ⟨id⟩, type := some ⟨id⟩, location := .unknown }
  let literal : Expr := .mk (node 1) (.typeLiteral (.type ⟨0⟩))
  let member : Expr := .mk (node 2) (.member literal (some ⟨2⟩) .plain [])
  [{ name := "member", statements := [.evaluate member] },
    { name := "value", statements := [.evaluate (.mk (node 3) (.base (some ⟨1⟩) []))] }]

namespace Target

/-- The type of the literal becomes raw by its own rule, and a second visit starts with that. -/
theorem run_settles_literal :
    let out := run ⟨.uses, .standard⟩ {} {} SourceUnit.literalMember
    out.result.isOk = true ∧ OwnTypes .uses SourceUnit.literalMember ∧ out.marks.raw ⟨1⟩ = true ∧
      (visitUnits ⟨.uses, .standard⟩ false out.marks out.units.reverse).1 = out.units.reverse := by
  have hrun : (run ⟨.uses, .standard⟩ {} {} SourceUnit.literalMember).result.isOk = true := by
    decide +kernel
  have hown : OwnTypes .uses SourceUnit.literalMember := ⟨by decide +kernel, by decide +kernel⟩
  have hagain := (run_settles ⟨.uses, .standard⟩ {} {} SourceUnit.literalMember hrun hown).2 false
    (run ⟨.uses, .standard⟩ {} {} SourceUnit.literalMember).units.reverse (List.reverse_perm _)
  exact ⟨hrun, hown, by decide +kernel, hagain.1⟩

end Target

end Unbox
