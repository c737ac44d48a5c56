import Unbox.Proofs.Phases

/-!
# What a visit records

* `Journal` : the marks, the counters and the records of a visit;
* `Account t F base sites j j'` : from `j` to `j'` the rule of each site was applied once, in the
  order of the sites, and nothing else was counted or recorded;
* `Visits.account` : a visit that does not fail gives such an account of the tree that it returns;
* `Visits.expressions_perm` : the expressions that are listed parts first are those among the parts;
* `Target.visitUnit_records` : what the visit of a unit records and counts.
-/

namespace Unbox
open Visitor

def Expr.record (e : Expr) : Record := ⟨e.id, e.location, e.flags⟩

/-- What a visit keeps apart from the place where it is. -/
structure Journal where
  marks : Marks
  stats : ExpressionStats
  isRecording : Bool
  records : Array Record

def Visit.journal (s : Visit) : Journal := ⟨s.marks, s.stats, s.isRecording, s.records⟩

/-- The journal after the rule of an expression. -/
def Journal.note (j : Journal) (e : Expr) (found : Finding) : Journal where
  marks := found.marks
  stats := j.stats.add found.flags found.unresolved
  isRecording := j.isRecording
  records := if j.isRecording then j.records.push ⟨e.id, e.location, found.flags⟩ else j.records

/-- From `j` to `j'` the rule of each site was applied once, with the flags that the site has as its
finding; there were only quiet touches in between. The declarations `base` are around all sites. -/
inductive Account (t : Target) (F : DeclId → Prop) (base : List DeclId) :
    List Site → Journal → Journal → Prop where
  | done (j : Journal) : Account t F base [] j j
  | quiet {sites : List Site} {j j' : Journal} {m : Marks} (h : Quiet t F j.marks m)
    (rest : Account t F base sites { j with marks := m } j') : Account t F base sites j j'
  | rule {site : Site} {sites : List Site} {j j' : Journal} {found : Finding}
    (h : t.find j.marks (site.scopes ++ base) site.expr.node site.expr.form = .ok found)
    (hf : found.flags = site.expr.flags)
    (rest : Account t F base sites (j.note site.expr found) j') :
    Account t F base (site :: sites) j j'

namespace Account
variable {t : Target} {F : DeclId → Prop} {base : List DeclId} {sites others : List Site}
  {j j' j'' : Journal}

theorem trans (h : Account t F base sites j j') (h' : Account t F base others j' j'') :
    Account t F base (sites ++ others) j j'' := by
  induction h with
  | done => exact h'
  | quiet hq _ ih => exact .quiet hq (ih h')
  | rule hr hf _ ih => exact .rule hr hf (ih h')

theorem quiets {m : Marks} (h : Relation.ReflTransGen (Quiet t F) j.marks m) :
    Account t F base [] j { j with marks := m } := by
  induction h with
  | refl => exact .done j
  | tail _ hq ih => exact ih.trans (.quiet hq (.done _))

/-- What stands in the body of `d`, seen from outside. -/
theorem within {d : DeclId} (h : Account t F (d :: base) sites j j') :
    Account t F base (sites.map (.within d)) j j' := by
  induction h with
  | done => exact .done _
  | quiet hq _ ih => exact .quiet hq ih
  | @rule site _ _ _ _ hr hf _ ih =>
    refine .rule ?_ hf ih
    rwa [Site.within, List.append_assoc]

end Account

/-! ## Every visit gives an account -/

namespace Visits
variable {t : Target} {F : DeclId → Prop} {α : Type} {L : Layout α} {ps : List Part} {a : α}
  {visit : α → Visitor α}

theorem account_of_quiets {base : List DeclId} {u : Visitor Unit} (hu : Quiets t F u) {s : Visit}
    (hs : s.Sound t F) : Account t F base [] s.journal (u s).2.journal := by
  obtain ⟨m, failure, hm, heq, -⟩ := hu s hs
  rw [heq]
  exact .quiets hm

theorem account_of_finish {n : Node} {form : Form} {s : Visit}
    (h : (t.finish n form s).2.failure = none) :
    Expr.form (t.finish n form s).1 = form ∧
      Account t F s.scopes [{ expr := (t.finish n form s).1 }] s.journal
        (t.finish n form s).2.journal := by
  obtain ⟨hf, found, hfound⟩ := Target.exists_of_finish h
  rw [Target.finish_of_ok hf hfound]
  exact ⟨rfl, .rule hfound rfl (.done _)⟩

/-- A visit that does not fail applies the rule of each expression once, parts before the whole, and
returns it with what the rule found. -/
theorem account (h : Visits t L ps visit a) (hF : Forces F ps) {s : Visit} (hs : s.Sound t F)
    (hf : (visit a s).2.failure = none) :
    Account t F s.scopes (L.sites (visit a s).1) s.journal (visit a s).2.journal := by
  induction h generalizing s with
  | @done _ L _ a h hv =>
    rw [hv]
    change Account t F s.scopes (L.sites a) s.journal s.journal
    rw [h]
    exact .done _
  | pair hx hy ihx ihy =>
    have hlx := hx.leads hF.left hs
    have hly := hy.leads hF.right (hs.leads hlx)
    have hay := ihy hF.right (hs.leads hlx) hf
    rw [hlx.scopes] at hay
    exact (ihx hF.left hs (hly.failure hf)).trans hay
  | build _ mk hv hsites _ ih =>
    rw [hv _ rfl] at hf ⊢
    change Account t F s.scopes (Layout.sites _ (mk _)) s.journal _
    rw [hsites]
    exact ih hF hs hf
  | @finish _ _ _ a visit _ n h mk hv hsites _ ih =>
    rw [hv n a rfl] at hf ⊢
    have hl := h.leads hF.tail hs
    have hparts := ih hF.tail hs ((t.finish_leads (F := F) n (mk (visit a s).1) _).failure hf)
    obtain ⟨hform, hrule⟩ := account_of_finish (F := F) hf
    change Account t F s.scopes (Layout.expr.sites (t.finish n (mk (visit a s).1) (visit a s).2).1)
      s.journal (t.finish n (mk (visit a s).1) (visit a s).2).2.journal
    rw [Layout.sites_expr, hform, hsites]
    rw [hl.scopes] at hrule
    exact hparts.trans hrule
  | inside d h ih => exact (ih (s := { s with scopes := d :: s.scopes }) hF hs hf).within
  | note _ _ _ ih => exact ih hF.tail hs hf
  | chore h u hu ih =>
    obtain ⟨q, hq, hu⟩ := hu _ (h.bare s)
    have hquiets := hu.quiets (hF q hq)
    have hsound := hs.leads (h.leads hF hs)
    have hact := ih hF hs ((hquiets.leads hsound).failure hf)
    have := hact.trans (account_of_quiets hquiets hsound)
    rwa [List.append_nil] at this
  | @iteration _ _ _ _ _ _ a _ visit _ ds l hd hx hy ihx ihy =>
    obtain ⟨q, hq, hd⟩ := hd
    have hds : ∀ d ∈ ds, F d := fun d hdd => hF.left q hq d (hd d hdd)
    have hquiets : Quiets t F (ds.forM (t.forceAt (l (visit a s).1))) := .forces _ hds
    have hlx := hx.leads hF.left hs
    have hlf := hquiets.leads (hs.leads hlx)
    have hsound := sound_binding (l := l (visit a s).1) (hs.leads hlx) hds
    have hax := ihx hF.left hs (hlf.failure ((hy.leads hF.right hsound).failure hf))
    have hscopes : (ds.forM (t.forceAt (l (visit a s).1)) (visit a s).2).2.scopes = s.scopes :=
      hlf.scopes.trans hlx.scopes
    rw [← hscopes] at hax ⊢
    exact hax.trans ((account_of_quiets hquiets (hs.leads hlx)).trans (ihy hF.right hsound hf))

/-- Listed parts first or whole first, the expressions are the same. -/
theorem expressions_perm (h : Visits t L ps visit a) :
    ((L.sites a).map Site.expr).Perm (ps.filterMap Part.expr?) := by
  induction h with
  | done h => rw [h]; exact .nil
  | pair _ _ ihx ihy | iteration _ _ _ _ _ ihx ihy =>
    rw [List.filterMap_append, Layout.prod, List.map_append]
    exact ihx.append ihy
  | build _ _ _ hsites _ ih => rwa [hsites]
  | finish n _ mk _ hsites _ ih =>
    rw [Layout.sites_expr, Expr.form, hsites, List.map_append,
      List.filterMap_cons_some (f := Part.expr?) rfl]
    exact (List.perm_append_singleton _ _).trans (ih.cons _)
  | inside d _ ih =>
    rw [Layout.within, List.map_map]
    exact ih
  | note q hq _ ih => rwa [List.filterMap_cons_none hq]
  | chore _ _ _ ih => exact ih

end Visits

/-! ## Records and counters -/

/-- From `s` to `s'` the flags of the expressions were counted. -/
structure Counted (es : List Expr) (s s' : ExpressionStats) : Prop where
  visited : s'.visited = s.visited + es.length
  unboxed : s'.unboxed = s.unboxed + es.countP (·.flags.unboxed)
  typeErased : s'.typeErased = s.typeErased + es.countP (·.flags.typeErased)
  raw : s'.raw = s.raw + es.countP (·.flags.raw)
  untrusted : s'.untrusted = s.untrusted + es.countP (·.flags.untrusted)

namespace Account
variable {t : Target} {F : DeclId → Prop} {base : List DeclId} {sites : List Site} {j j' : Journal}

theorem counted (h : Account t F base sites j j') :
    Counted (sites.map Site.expr) j.stats j'.stats := by
  induction h with
  | done => exact ⟨rfl, rfl, rfl, rfl, rfl⟩
  | quiet _ _ ih => exact ih
  | @rule site sites j j' found _ hf _ ih =>
    have count (b : Bool) (n k : Nat) : n + b.toNat + k = n + (k + if b then 1 else 0) := by
      cases b
      · rfl
      · simp only [Bool.toNat_true, if_true]; omega
    obtain ⟨hv, hu, he, hr, hn⟩ := ih
    simp only [Journal.note, ExpressionStats.add, hf, count] at hv hu he hr hn
    simp only [List.map_cons]
    refine ⟨?_, ?_, ?_, ?_, ?_⟩
    · rw [hv, List.length_cons]; omega
    all_goals rw [List.countP_cons]; assumption

theorem recorded (h : Account t F base sites j j') (hr : j.isRecording = true) :
    j'.records.toList = j.records.toList ++ (sites.map Site.expr).map Expr.record := by
  induction h with
  | done => simp
  | quiet _ _ ih => exact ih hr
  | @rule site sites j j' found _ hf _ ih =>
    rw [ih hr, Journal.note, if_pos hr, Array.toList_push, hf, List.append_assoc]
    rfl

end Account

namespace Target

/-- If the second phase does not fail, it counts the expressions of all units. -/
theorem visitUnits_counted {t : Target} {isRecording : Bool} {m : Marks} {units : List SourceUnit}
    (hf : (t.visitUnits isRecording m units).2.failure = none) :
    Counted ((t.visitUnits isRecording m units).1.flatMap SourceUnit.expressions) {}
      (t.visitUnits isRecording m units).2.stats := by
  have haccount := (t.mapM_visits units).account (fun _ _ _ _ => trivial) (.start m _) hf
  have hcounted := haccount.counted
  rw [Layout.sources, List.map_flatMap] at hcounted
  exact hcounted

/-- If the visit of a unit does not fail, what it records are the expressions of the unit that it
returns, each once and after the ones that stand in it, with their place and their flags; these are
all expressions among the parts of the unit. The counters are those of the records. -/
theorem visitUnit_records (t : Target) (u : SourceUnit) (m : Marks)
    (hf : ((t.visitUnit u).run { marks := m, isRecording := true }).2.failure = none) :
    let u' := ((t.visitUnit u).run { marks := m, isRecording := true }).1
    let v := ((t.visitUnit u).run { marks := m, isRecording := true }).2
    v.records.toList = u'.expressions.map Expr.record ∧
      u'.expressions.Perm (u'.parts.filterMap Part.expr?) ∧ u'.bare = u.bare ∧
      v.stats.visited = v.records.toList.length ∧
      v.stats.unboxed = v.records.toList.countP (·.flags.unboxed) ∧
      v.stats.typeErased = v.records.toList.countP (·.flags.typeErased) ∧
      v.stats.raw = v.records.toList.countP (·.flags.raw) ∧
      v.stats.untrusted = v.records.toList.countP (·.flags.untrusted) := by
  intro u' v
  have haccount : Account t ⊤ [] u'.sites ⟨m, {}, true, #[]⟩ v.journal :=
    (t.visitUnit_visits u).account (fun _ _ _ _ => trivial) (.start m _) hf
  have hrecords : v.records.toList = u'.expressions.map Expr.record :=
    (haccount.recorded rfl).trans (List.nil_append _)
  refine ⟨hrecords, (t.visitUnit_visits u').expressions_perm, (t.visitUnit_visits u).bare _, ?_⟩
  obtain ⟨hvisited, hunboxed, herased, hraw, huntrusted⟩ := haccount.counted
  rw [Nat.zero_add] at hvisited hunboxed herased hraw huntrusted
  simp only [hrecords, List.length_map, List.countP_map]
  exact ⟨hvisited, hunboxed, herased, hraw, huntrusted⟩

/-- In a comprehension the iterated expression comes first, then the receiver of the result. -/
theorem visitUnit_records_comprehension :
    let visited := (visitUnit ⟨.integers, .standard⟩ .comprehension).run
      { marks := {}, isRecording := true }
    visited.2.failure = none ∧ visited.2.records.toList = visited.1.expressions.map Expr.record ∧
      visited.1.expressions.map Expr.id = [⟨1⟩, ⟨3⟩, ⟨2⟩, ⟨0⟩] := by
  have hf : ((visitUnit ⟨.integers, .standard⟩ .comprehension).run
      { marks := {}, isRecording := true }).2.failure = none :=
    Option.isNone_iff_eq_none.mp (by decide +kernel)
  exact ⟨hf, (visitUnit_records ⟨.integers, .standard⟩ .comprehension {} hf).1, by decide +kernel⟩

end Target

end Unbox
