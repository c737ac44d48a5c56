import Unbox.Policy.Standard
import Unbox.Proofs.Frame

/-!
# The visit of the trees leaves the declarations as they were decided

To decide the declarations and to visit the expressions are two separate walks over the same trees.
The visit boxes iteration variables, the variables of the conditions of a comprehension and the
receivers in one; all of these were boxed already when the declarations were decided.

* `Context.boxed_of_decideUnits` : what any of the units forces is boxed once all are decided;
* `Edit.keeps_declaration` : to force what is boxed already changes no finding about a declaration;
* `Target.visitUnits_keeps_declarations` : the visit of all units changes no such finding;
* `Target.run_of_ok`, `Target.ok_of_run` : a run does not fail if and only if neither phase does.
-/

namespace Unbox

theorem Context.boxed_of_decideUnits {c : Context} {m : Marks} {units : List SourceUnit}
    {u : SourceUnit} {d : DeclId} (hu : u ∈ units) (hd : d ∈ u.forced)
    (h : (c.decideUnits m units).1 = .ok ()) :
    (c.decideUnits m units).2.marks.unboxed d = some false := by
  refine Decide.holds_of_forM (P := fun m => m.unboxed d = some false)
    (fun _ _ => Write.stays_boxed) (fun v hv => c.decideUnit_follows hv) hu (fun s' _ _ hs' => ?_) h
  exact c.boxed_of_decideUnit hd hs'

theorem Edit.keeps_declaration {t : Target} {F : DeclId → Prop} {found : Prop} {m m' : Marks}
    (h : Edit t (fun _ => False) F False found m m') (hF : ∀ d, F d → m.unboxed d = some false)
    (d : DeclId) : m'.declarations.get d = m.declarations.get d := by
  cases h with
  | force e _ he =>
    simp only [Marks.forceBoxed, Marks.updateDeclaration, Column.get_update]
    split
    · next hde =>
      subst hde
      have hb : (m.declarations.get d).unboxed = some false := hF d he
      rw [← hb]
    · rfl
  | decide _ _ _ hD => exact hD.elim
  | erase _ _ hn | distrust _ _ hn => exact hn.elim
  | raw | underlying | bounds => rfl

namespace Target
variable (t : Target)

/-- If the declarations of all units were decided without a failure, the visit of the units leaves
every finding about a declaration as it was then, whether the visit fails or not. -/
theorem visitUnits_keeps_declarations (limit : Nat) (isRecording : Bool) (m : Marks)
    (units : List SourceUnit) (d : DeclId)
    (h : (Context.decideUnits { t with limit } m units).1 = .ok ()) :
    let decided := (Context.decideUnits { t with limit } m units).2.marks
    (t.visitUnits isRecording decided units).2.marks.declarations.get d =
      decided.declarations.get d := by
  intro decided
  have boxed (e : DeclId) (he : ∃ u ∈ units, e ∈ u.forced) : decided.unboxed e = some false := by
    obtain ⟨u, hu, he⟩ := he
    exact Context.boxed_of_decideUnits hu he h
  obtain ⟨touches, -⟩ := t.visitUnits_follows (F := fun e => ∃ u ∈ units, e ∈ u.forced)
    isRecording decided units fun u hu e he => ⟨u, hu, he⟩
  generalize (t.visitUnits isRecording decided units).2.marks = visited at touches ⊢
  -- all findings are kept together: that a variable stays boxed is one of them
  suffices ∀ e, visited.declarations.get e = decided.declarations.get e from this d
  induction touches with
  | refl => exact fun e => rfl
  | tail _ hw ih =>
    intro e
    refine (hw.keeps_declaration (fun e he => ?_) e).trans (ih e)
    rw [← boxed e he]
    exact congrArg DeclarationMarks.unboxed (ih e)

section Run
variable {t : Target} {settings : Settings} {m : Marks} {units : List SourceUnit}

/-- If neither phase fails, the run leaves behind what the second phase does. -/
theorem run_of_ok
    (hd : (Context.decideUnits { t with limit := settings.maxDepth } m units).1 = .ok ())
    (hf : (t.visitUnits settings.collectReport
      (Context.decideUnits { t with limit := settings.maxDepth } m units).2.marks units).2.failure =
        none) :
    let decided := (Context.decideUnits { t with limit := settings.maxDepth } m units).2
    let visited := t.visitUnits settings.collectReport decided.marks units
    ∃ report, t.run settings m units =
      ⟨.ok ⟨⟨decided.stats, visited.2.stats⟩, report⟩, visited.2.marks, visited.1⟩ := by
  unfold run
  rw [← Prod.eta (Context.decideUnits _ m units), hd]
  dsimp only
  rw [hf]
  exact ⟨_, rfl⟩

theorem ok_of_run (h : (t.run settings m units).result.isOk = true) :
    let decided := Context.decideUnits { t with limit := settings.maxDepth } m units
    decided.1 = .ok () ∧
      (t.visitUnits settings.collectReport decided.2.marks units).2.failure = none := by
  intro decided
  unfold run at h
  split at h
  · cases h
  · next decisions hd =>
    have hdecided : decided = (.ok (), decisions) := hd
    rw [hdecided]
    dsimp only at h
    split at h
    · cases h
    · next hf => exact ⟨rfl, hf⟩

end Run

end Target

/-- An integer class (0) with an integer attribute (2), and an integer value (1). -/
def Program.integers : Program where
  decls := #[
    { name := some ⟨0⟩, kind := .classType { members := [⟨2⟩] }, scope := .unit },
    { name := some ⟨1⟩, kind := .value, scope := .unit, type := some ⟨0⟩ },
    { name := some ⟨2⟩, kind := .value, scope := .declaration ⟨0⟩, type := some ⟨0⟩ }]
  types := #[.nominal ⟨0⟩ []]
  core := ⟨⟨3⟩, ⟨3⟩, ⟨3⟩, ⟨3⟩, ⟨3⟩, ⟨3⟩, ⟨3⟩, ⟨0⟩, ⟨3⟩, ⟨3⟩, ⟨3⟩, ⟨3⟩, ⟨3⟩, ⟨3⟩, ⟨3⟩⟩

/-- A comprehension that iterates with the value and yields its attribute. -/
def SourceUnit.comprehension : SourceUnit where
  name := "comprehension"
  statements :=
    let node (id : Nat) : Node := { id := ⟨id⟩, type := some ⟨0⟩, location := .unknown }
    let value : Expr := .mk (node 3) (.base (some ⟨1⟩) [])
    let attribute_ : Expr := .mk (node 2) (.member value (some ⟨2⟩) .plain [])
    let range : Expr := .mk (node 1) (.literal (.natural 0))
    [.evaluate (.mk (node 0) (.comprehension (.forIn (.name ⟨1⟩) range (.yield attribute_))))]

namespace Target

/-- The visit forces the iteration variable as a variable and as a receiver. It was unboxed before,
and it is boxed from the first phase on. -/
theorem visitUnits_keeps_comprehension :
    let t : Target := ⟨.integers, .standard⟩
    let m := ({} : Marks).setUnboxed ⟨1⟩ true
    let first := Context.decideUnits { t with limit := 8 } m [.comprehension]
    first.1 = .ok () ∧ m.unboxed ⟨1⟩ = some true ∧ first.2.marks.unboxed ⟨1⟩ = some false ∧
      (t.visitUnits false first.2.marks [.comprehension]).2.marks.declarations.get ⟨1⟩ =
        first.2.marks.declarations.get ⟨1⟩ :=
  ⟨rfl, rfl, rfl, visitUnits_keeps_declarations _ 8 false _ [.comprehension] ⟨1⟩ rfl⟩

end Target

end Unbox
