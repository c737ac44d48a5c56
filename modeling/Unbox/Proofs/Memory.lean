import Unbox.Policy.Standard
import Unbox.Proofs.Answers
import Unbox.Proofs.Twins

/-!
# The memory of bounds

Whether a type parameter keeps a bound is worked out once and then remembered. A run cannot tell
whether it is remembered or worked out again.

* `Target.hasKeptBound` : the test that is remembered, without a memory;
* `BoundMarks.Faithful t b` : what is remembered is what the test says;
* `BoundMarks.Right t before b` : so it is, and every answer since `before` was what the test says;
* `Target.Definite question` : a question with one answer for all such memories, which it keeps such;
* `Marks.Twin`, `Journal.Twin` : equal up to two such memories;
* `Target.run_recalls` : every question of a run is answered by the test, and the run ends alike if
  nothing is remembered at first.
-/

namespace Unbox

/-- Some bound of the type parameter does not erase to the top type. -/
def Target.hasKeptBound (t : Target) (d : DeclId) : Bool :=
  (t.program.decl? d >>= Declaration.bounds?).any fun bounds =>
    bounds.any fun a => !t.policy.erasesToObject t.program a

/-! ## Right memories -/

namespace BoundMarks

/-- What is remembered about a type parameter is what the test says. -/
def Faithful (t : Target) (b : BoundMarks) : Prop :=
  ∀ d, (t.program.decl? d).any Declaration.isTypeParameter = true →
    b.get d = none ∨ b.get d = some (t.hasKeptBound d)

/-- What is remembered is right, and so was every answer since `before`. -/
structure Right (t : Target) (before : List (DeclId × Bool)) (b : BoundMarks) : Prop where
  faithful : b.Faithful t
  asked : ∃ calls, b.asked = calls ++ before ∧ ∀ call ∈ calls, call.2 = t.hasKeptBound call.1

variable {t : Target} {before : List (DeclId × Bool)} {b : BoundMarks}

theorem Faithful.right (h : b.Faithful t) : b.Right t b.asked :=
  ⟨h, [], rfl, by simp⟩

theorem Faithful.answer (h : b.Faithful t) (d : DeclId) :
    boundAnswer (t.policy.erasesToObject t.program) t.program b d = t.hasKeptBound d := by
  unfold boundAnswer Target.hasKeptBound
  cases hb : t.program.decl? d >>= Declaration.bounds? with
  | none => rfl
  | some bounds =>
    obtain ⟨x, hx, hxb⟩ := Option.bind_eq_some_iff.mp hb
    have hd : (t.program.decl? d).any Declaration.isTypeParameter = true := by
      rw [hx]
      exact Declaration.isTypeParameter_of_bounds? hxb
    rcases h d hd with hknown | hknown
    · rw [hknown]
      rfl
    · rw [hknown, Target.hasKeptBound, hb]
      rfl

/-- A question is answered by the test, and the answer is remembered and noted as such. -/
theorem Right.keepsBound (h : b.Right t before) (d : DeclId) :
    (t.policy.keepsBound t.program d b).1 = t.hasKeptBound d ∧
      (t.policy.keepsBound t.program d b).2.Right t before := by
  have hanswer := h.faithful.answer d
  refine ⟨keepsBoundOf_fst.trans hanswer, fun e he => ?_, ?_⟩
  · have hget : (t.policy.keepsBound t.program d b).2.get e = _ := get_keepsBoundOf e
    rw [hanswer] at hget
    by_cases hed : e = d ∧ (t.program.decl? d >>= Declaration.bounds?).isSome = true
    · rw [if_pos hed] at hget
      rw [hget, hed.1]
      exact .inr rfl
    · rw [if_neg hed] at hget
      rw [hget]
      exact h.faithful e he
  · obtain ⟨calls, hcalls, hright⟩ := h.asked
    refine ⟨(d, t.hasKeptBound d) :: calls, ?_, ?_⟩
    · rw [List.cons_append, ← hcalls, ← hanswer]
      exact asked_keepsBoundOf
    · intro call hcall
      rcases List.mem_cons.mp hcall with rfl | hcall
      · rfl
      · exact hright call hcall

end BoundMarks

/-! ## Questions with one answer -/

/-- A question with one answer for all right memories, which it keeps right. -/
def Target.Definite {α : Type} (t : Target) (question : StateM BoundMarks α) : Prop :=
  ∃ a, ∀ before b, BoundMarks.Right t before b →
    (question b).1 = a ∧ (question b).2.Right t before

namespace Target.Definite
variable {α β : Type} {t : Target}

theorem pure (a : α) : t.Definite (Pure.pure a) := ⟨a, fun _ _ h => ⟨rfl, h⟩⟩

theorem bind {x : StateM BoundMarks α} {f : α → StateM BoundMarks β} (hx : t.Definite x)
    (hf : ∀ a, t.Definite (f a)) : t.Definite (x >>= f) := by
  obtain ⟨a, hx⟩ := hx
  obtain ⟨c, hf⟩ := hf a
  refine ⟨c, fun before b h => ?_⟩
  obtain ⟨ha, h⟩ := hx before b h
  change (f (x b).1 (x b).2).1 = c ∧ (f (x b).1 (x b).2).2.Right t before
  rw [ha]
  exact hf before _ h

end Target.Definite

theorem Inquiry.definite {α : Type} {t : Target} {question : StateM BoundMarks α}
    (h : Inquiry (t.policy.erasesToObject t.program) t.program question) : t.Definite question := by
  induction h with
  | pure a => exact .pure a
  | keepsBound d => exact ⟨t.hasKeptBound d, fun _ _ h => h.keepsBound d⟩
  | bind _ _ hx hf => exact .bind hx hf

/-! ## Two walks over the declarations -/

/-- Equal up to the memories of bounds, which are right. -/
structure Marks.Twin (t : Target) (before before' : List (DeclId × Bool)) (m m' : Marks) : Prop where
  declarations : m'.declarations = m.declarations
  types : m'.types = m.types
  right : m.bounds.Right t before
  right' : m'.bounds.Right t before'

section
variable {t : Target} {before before' : List (DeclId × Bool)} {m m' : Marks}

theorem Target.Definite.asks {α : Type} {question : StateM BoundMarks α} (h : t.Definite question) :
    Marks.Asks (Marks.Twin t before before') question := by
  intro m m' hm
  obtain ⟨a, h⟩ := h
  obtain ⟨ha, hright⟩ := h before m.bounds hm.right
  obtain ⟨ha', hright'⟩ := h before' m'.bounds hm.right'
  exact ⟨ha'.trans ha.symm, hm.declarations, hm.types, hright, hright'⟩

theorem Marks.Twin.updateDeclaration (h : Marks.Twin t before before' m m') (d : DeclId)
    (f : DeclarationMarks → DeclarationMarks) :
    Marks.Twin t before before' (m.updateDeclaration d f) (m'.updateDeclaration d f) :=
  { h with declarations := congrArg (·.update d f) h.declarations }

theorem Marks.Twin.updateType (h : Marks.Twin t before before' m m') (a : TypeId)
    (f : TypeMarks → TypeMarks) :
    Marks.Twin t before before' (m.updateType a f) (m'.updateType a f) :=
  { h with types := congrArg (·.update a f) h.types }

theorem Context.carries_twin {c : Context}
    (hs : ∀ a, c.toTarget.Definite (c.policy.substitutesBound c.program a)) :
    c.Carries (Marks.Twin c.toTarget before before') where
  unboxed h := by
    funext d
    exact congrArg (fun column => (column.get d).unboxed) h.declarations
  underlying h := by
    funext a
    exact congrArg (fun column => (column.get a).underlying) h.types
  declaration h := h.updateDeclaration
  type h := h.updateType
  keepsBound d := (Inquiry.keepsBound d).definite.asks
  substitutesBound a := (hs a).asks

theorem Marks.Twin.bounds (h : Marks.Twin t before before' m m') :
    m' = { m with bounds := m'.bounds } := by
  obtain ⟨declarations, bounds, types⟩ := m
  obtain ⟨rfl, rfl, -, -⟩ := h
  rfl

/-! ## Two visits of a tree -/

/-- Findings that differ at most in the memory of bounds that they leave. -/
structure Finding.Twin (t : Target) (before before' : List (DeclId × Bool)) (found found' : Finding) :
    Prop where
  flags : found'.flags = found.flags
  unresolved : found'.unresolved = found.unresolved
  marks : Marks.Twin t before before' found.marks found'.marks

/-- The same failure, or findings that are twins. -/
def TwinFindings (t : Target) (before before' : List (DeclId × Bool))
    (x x' : Except Failure Finding) : Prop :=
  (∃ e, x = .error e ∧ x' = .error e) ∨
    ∃ found found', x = .ok found ∧ x' = .ok found' ∧ Finding.Twin t before before' found found'

namespace TwinFindings
variable {scopes : List DeclId} {b' : BoundMarks} (h : m.bounds.Right t before)
  (h' : b'.Right t before')
include h h'

theorem ok (flags : Flags) (unresolved : Bool) : TwinFindings t before before'
    (.ok ⟨flags, m, unresolved⟩) (.ok ⟨flags, { m with bounds := b' }, unresolved⟩) :=
  .inr ⟨_, _, rfl, rfl, rfl, rfl, rfl, rfl, h, h'⟩

theorem plain (flags : Except Failure Flags) : TwinFindings t before before'
    (do return View.plain ⟨t, m, scopes⟩ (← flags))
    (do return View.plain ⟨t, { m with bounds := b' }, scopes⟩ (← flags)) := by
  cases flags with
  | error e => exact .inl ⟨e, rfl, rfl⟩
  | ok flags => exact ok h h' flags false

theorem memberFinding (l : Location) (primary : Expr) (d : DeclId) (op : MemberOperator) :
    TwinFindings t before before' (View.memberFinding ⟨t, m, scopes⟩ l primary d op)
      (View.memberFinding ⟨t, { m with bounds := b' }, scopes⟩ l primary d op) := by
  unfold View.memberFinding
  cases t.program.decl d l with
  | error e => exact .inl ⟨e, rfl, rfl⟩
  | ok x =>
    simp only [bind, Except.bind]
    cases op with
    | plain | spread => exact ok h h' _ false
    | safe =>
      cases x.type with
      | none => exact ok h h' _ false
      | some a =>
        obtain ⟨foreign, definite⟩ :=
          (View.mentionsForeignErased_inquiry (v := ⟨t, m, scopes⟩) a).definite (t := t)
        obtain ⟨ha, hright⟩ := definite before m.bounds h
        obtain ⟨ha', hright'⟩ := definite before' b' h'
        refine .inr ⟨_, _, rfl, rfl, ?_, rfl, rfl, rfl, hright, hright'⟩
        have answers := ha'.trans ha.symm
        exact congrArg (fun foreign => { View.declarationFlags ⟨t, m, scopes⟩ d x with
          unboxed := false
          typeErased := (View.declarationFlags ⟨t, m, scopes⟩ d x).typeErased ||
            View.erasedThrough ⟨t, m, scopes⟩ primary x
          untrusted := (View.declarationFlags ⟨t, m, scopes⟩ d x).untrusted || foreign }) answers

theorem indexFinding (l : Location) (primary : Expr) (name : String) :
    TwinFindings t before before' (View.indexFinding ⟨t, m, scopes⟩ l primary name)
      (View.indexFinding ⟨t, { m with bounds := b' }, scopes⟩ l primary name) := by
  unfold View.indexFinding
  dsimp only
  split
  · exact ok h h' _ true
  · next d _ =>
    cases t.program.decl d l with
    | error e => exact .inl ⟨e, rfl, rfl⟩
    | ok x => exact ok h h' _ false

theorem rule (scopes : List DeclId) (n : Node) (form : Form) :
    TwinFindings t before before' (View.rule ⟨t, m, scopes⟩ n form)
      (View.rule ⟨t, { m with bounds := b' }, scopes⟩ n form) := by
  cases form with
  | member primary d op =>
    cases d with
    | some d => exact memberFinding h h' n.location primary d op
    | none => exact ok h h' _ false
  | element primary => exact indexFinding h h' n.location primary "get"
  | span primary => exact indexFinding h h' n.location primary "span"
  | base d =>
    cases d with
    | some d => exact plain h h' (View.baseFlags ⟨t, m, scopes⟩ n.location d)
    | none => exact ok h h' _ false
  | call primary es => exact plain h h' (View.callFlags ⟨t, m, scopes⟩ n.location primary es)
  | callNamed primary => exact plain h h' (View.callFlags ⟨t, m, scopes⟩ n.location primary [])
  | typeLiteral target =>
    cases target with
    | declaration d => exact ok h h' _ false
    | type a =>
      unfold View.rule
      cases n.type with
      | none => exact ok h h' _ false
      | some a => exact .inr ⟨_, _, rfl, rfl, rfl, rfl, rfl, rfl, h, h'⟩
  | _ => exact ok h h' _ false

end TwinFindings

/-- What was noted differs at most in the memory of bounds. -/
structure Journal.Twin (t : Target) (before before' : List (DeclId × Bool)) (j j' : Journal) :
    Prop where
  marks : Marks.Twin t before before' j.marks j'.marks
  stats : j'.stats = j.stats
  isRecording : j'.isRecording = j.isRecording
  records : j'.records = j.records

theorem Journal.Twin.note {j j' : Journal} {found found' : Finding}
    (h : Journal.Twin t before before' j j') (hf : Finding.Twin t before before' found found')
    (e : Expr) : Journal.Twin t before before' (j.note e found) (j'.note e found') := by
  refine ⟨hf.marks, ?_, h.isRecording, ?_⟩
  · simp only [Journal.note, h.stats, hf.flags, hf.unresolved]
  · simp only [Journal.note, h.isRecording, h.records, hf.flags]

theorem Target.carries_twin : t.Carries (Journal.Twin t before before') where
  find {j j'} h scopes n form := by
    rw [h.marks.bounds]
    unfold Target.find
    cases t.checkType n with
    | error e => exact .error e
    | ok =>
      change FoundAlike _ n form j j' (View.rule ⟨t, j.marks, scopes⟩ n form)
        (View.rule ⟨t, { j.marks with bounds := j'.marks.bounds }, scopes⟩ n form)
      rcases TwinFindings.rule h.marks.right h.marks.right' scopes n form with
        ⟨e, he, he'⟩ | ⟨found, found', hfound, hfound', htwin⟩
      · rw [he, he']
        exact .error e
      · rw [hfound, hfound']
        exact .ok htwin.flags (h.note htwin _)
  force h d := { h with marks := h.marks.updateDeclaration d _ }
  underlying h a u := { h with marks := h.marks.updateType a _ }

end

/-! ## Runs -/

namespace Report

theorem declarationEntries_bounds (p : Program) (m : Marks) (b : BoundMarks) (xs : List Declaration)
    (i : Nat) (entries : List (String × DeclarationEntry)) :
    declarationEntries p { m with bounds := b } i entries xs = declarationEntries p m i entries xs := by
  induction xs generalizing i entries with
  | nil => rfl
  | cons x xs ih => exact ih (i + 1) _

theorem collect_bounds (unit : String) (p : Program) (m : Marks) (b : BoundMarks)
    (records : List Record) (stats : RunStats) :
    collect unit p { m with bounds := b } records stats = collect unit p m records stats := by
  unfold collect
  rw [declarationEntries_bounds]

end Report

/-- The marks with nothing remembered about bounds. -/
def Marks.forgetBounds (m : Marks) : Marks := { m with bounds := { m.bounds with known := {} } }

namespace Target
variable {t : Target} {before before' : List (DeclId × Bool)} {m m' : Marks}

/-- Runs that start with right memories end alike, up to what they remember. -/
theorem run_twins (hs : ∀ a, t.Definite (t.policy.substitutesBound t.program a))
    (h : Marks.Twin t before before' m m') (settings : Settings) (units : List SourceUnit) :
    (t.run settings m' units).result = (t.run settings m units).result ∧
      (t.run settings m' units).units = (t.run settings m units).units ∧
      Marks.Twin t before before' (t.run settings m units).marks (t.run settings m' units).marks := by
  obtain ⟨hresult, hrelated⟩ :=
    Context.decideUnits_twins (Context.carries_twin (c := ⟨t, settings.maxDepth⟩) hs) h units
  unfold run
  rcases hd : Context.decideUnits ⟨t, settings.maxDepth⟩ m units with ⟨result, decided⟩
  rcases hd' : Context.decideUnits ⟨t, settings.maxDepth⟩ m' units with ⟨result', decided'⟩
  rw [hd, hd'] at hresult hrelated
  obtain rfl : result' = result := hresult
  cases result' with
  | error e => exact ⟨rfl, rfl, hrelated.marks⟩
  | ok =>
    obtain ⟨hunits, hvisits⟩ := visitUnits_twins carries_twin settings.collectReport
      settings.collectReport ⟨hrelated.marks, rfl, rfl, rfl⟩ units
    have hjournal := hvisits.journal
    dsimp only
    generalize t.visitUnits settings.collectReport decided.marks units = out at *
    generalize t.visitUnits settings.collectReport decided'.marks units = out' at *
    obtain ⟨visited, visit⟩ := out
    obtain ⟨visited', visit'⟩ := out'
    dsimp only at hunits hvisits hjournal ⊢
    rw [hvisits.failure]
    cases visit.failure with
    | some e => exact ⟨rfl, hunits, hjournal.marks⟩
    | none =>
      refine ⟨?_, hunits, hjournal.marks⟩
      have hmarks : visit'.marks = { visit.marks with bounds := visit'.marks.bounds } :=
        hjournal.marks.bounds
      have hstats : visit'.stats = visit.stats := hjournal.stats
      have hrecords : visit'.records = visit.records := hjournal.records
      rw [hmarks, hstats, hrecords, hrelated.stats, Report.collect_bounds]

/-- Under the standard policy every question about the bounds of a type parameter, in a run that
starts with a faithful memory, is answered by the test itself, and the memory is faithful in the end. A
run that starts with nothing remembered ends alike: with the same counters and report or the same
failure, the same trees and the same marks. What is stored while the bounds are examined is never
seen. -/
theorem run_recalls (p : Program) (settings : Settings) (m : Marks) (units : List SourceUnit)
    (hm : m.bounds.Faithful ⟨p, .standard⟩) :
    let t : Target := ⟨p, .standard⟩
    let out := t.run settings m units
    let afresh := t.run settings m.forgetBounds units
    (∃ calls, out.marks.bounds.asked = calls ++ m.bounds.asked ∧
        ∀ call ∈ calls, call.2 = t.hasKeptBound call.1) ∧
      out.marks.bounds.Faithful t ∧
      afresh.result = out.result ∧ afresh.units = out.units ∧
      afresh.marks.declarations = out.marks.declarations ∧ afresh.marks.types = out.marks.types ∧
      ∀ provisional d b, recallBound provisional (fun a => return p.erasesToObject a) p d b =
        recallBound false (fun a => return p.erasesToObject a) p d b := by
  intro t out afresh
  have hforget : m.forgetBounds.bounds.Faithful t := fun _ _ => .inl rfl
  have htwin : Marks.Twin t m.bounds.asked m.bounds.asked m m.forgetBounds :=
    ⟨rfl, rfl, hm.right, hforget.right⟩
  obtain ⟨hresult, hunits, hmarks⟩ :=
    run_twins (t := t) (fun a => (p.substitutesBoundTo_inquiry p.typeDepth a).definite (t := t))
      htwin settings units
  exact ⟨hmarks.right.asked, hmarks.right.faithful, hresult, hunits, hmarks.declarations, hmarks.types,
    fun provisional _ _ => recallBound_provisional provisional⟩

end Target

/-! ## A bound that mentions its type parameter -/

/-- A class (0) whose type parameter (1) is bounded by the interface (2) of itself, and a value (5) that
gives the top type (4) for it. -/
def Program.sorting : Program where
  decls := #[
    { name := some ⟨0⟩, kind := .classType {}, scope := .unit, typeParameters := [⟨1⟩] },
    { name := some ⟨1⟩, kind := .typeParameter { variance := .invariant, bounds := [⟨1⟩] },
      scope := .declaration ⟨0⟩ },
    { name := some ⟨2⟩, kind := .interfaceType {}, scope := .unit, typeParameters := [⟨3⟩] },
    { name := some ⟨3⟩, kind := .typeParameter { variance := .invariant }, scope := .declaration ⟨2⟩ },
    { name := some ⟨4⟩, kind := .classType {}, scope := .unit },
    { name := some ⟨5⟩, kind := .value, scope := .unit, type := some ⟨2⟩ }]
  types := #[.typeParameter ⟨1⟩, .nominal ⟨2⟩ [⟨0⟩], .nominal ⟨0⟩ [⟨3⟩], .nominal ⟨4⟩ []]
  core := ⟨⟨4⟩, ⟨4⟩, ⟨4⟩, ⟨4⟩, ⟨6⟩, ⟨6⟩, ⟨6⟩, ⟨6⟩, ⟨6⟩, ⟨6⟩, ⟨6⟩, ⟨6⟩, ⟨6⟩, ⟨6⟩, ⟨6⟩⟩

/-- The declarations of the class, with its type parameter, and of the value. -/
def SourceUnit.sorting : SourceUnit where
  name := "sorting"
  statements := [
    .declare { declaration := ⟨0⟩, location := .unknown, typeParameters := [⟨1⟩] } [] .absent,
    .declare { declaration := ⟨5⟩, location := .unknown } [] .absent]

/-- The bound is remembered to stay. -/
def Marks.sorting : Marks := { bounds := ({} : BoundMarks).set ⟨1⟩ (some true) }

/-- Both questions about the bound are answered as it is remembered; the type of the value erases, whether
the bound is remembered or examined. -/
theorem Target.run_recalls_sorting :
    Marks.sorting.bounds.Faithful ⟨.sorting, .standard⟩ ∧
      (run ⟨.sorting, .standard⟩ {} .sorting [.sorting]).marks.bounds.asked =
        [(⟨1⟩, true), (⟨1⟩, true)] ∧
      (run ⟨.sorting, .standard⟩ {} .sorting [.sorting]).marks.typeErased ⟨5⟩ = true ∧
      (run ⟨.sorting, .standard⟩ {} Marks.sorting.forgetBounds [.sorting]).marks.declarations =
        (run ⟨.sorting, .standard⟩ {} .sorting [.sorting]).marks.declarations ∧
      (run ⟨.sorting, .standard⟩ {} Marks.sorting.forgetBounds [.sorting]).result =
        (run ⟨.sorting, .standard⟩ {} .sorting [.sorting]).result := by
  have hfaithful : Marks.sorting.bounds.Faithful ⟨.sorting, .standard⟩ := by
    intro d _
    have hget : Marks.sorting.bounds.get d = if d = ⟨1⟩ then some true else none :=
      BoundMarks.get_set ..
    by_cases hd : d = ⟨1⟩
    · rw [hget, if_pos hd, hd]
      exact .inr (by decide)
    · exact .inl (hget.trans (if_neg hd))
  obtain ⟨-, -, hresult, -, hdeclarations, -, -⟩ :=
    run_recalls .sorting {} .sorting [.sorting] hfaithful
  exact ⟨hfaithful, by decide +kernel, by decide +kernel, hdeclarations, hresult⟩

end Unbox
