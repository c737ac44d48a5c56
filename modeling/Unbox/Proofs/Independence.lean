import Unbox.Proofs.Limits
import Unbox.Proofs.Phases
import Unbox.Proofs.Twins

/-!
# Settings change no decision

* `Visit.Alike s s'` : the states differ in what is recorded at most;
* `Target.visitUnits_alike` : a visit ends in such states whether it records or not;
* `Target.run_independent` : runs whose limits are beyond the number of declarations end alike, apart
  from the report, which is there exactly if the settings ask for it and the run succeeds.
-/

namespace Unbox

/-- The states differ in what is recorded at most. -/
structure Visit.Alike (s s' : Visit) : Prop where
  marks : s'.marks = s.marks
  scopes : s'.scopes = s.scopes
  bound : s'.bound = s.bound
  stats : s'.stats = s.stats
  failure : s'.failure = s.failure

/-- Whether expressions are recorded makes no difference to a visit but for the records. -/
theorem Target.carries_counted (t : Target) :
    t.Carries fun j j' => j'.marks = j.marks ∧ j'.stats = j.stats where
  find {j j'} h scopes n form := by
    rw [h.1]
    cases t.find j.marks scopes n form with
    | error e => exact .error e
    | ok found => exact .ok rfl ⟨rfl, congrArg (·.add found.flags found.unresolved) h.2⟩
  force h d := ⟨congrArg (·.forceBoxed d) h.1, h.2⟩
  underlying h a u := ⟨congrArg (·.setUnderlying a u) h.1, h.2⟩

namespace Target
variable (t : Target)

theorem visitUnits_alike (isRecording isRecording' : Bool) (m : Marks) (units : List SourceUnit) :
    (t.visitUnits isRecording' m units).1 = (t.visitUnits isRecording m units).1 ∧
      Visit.Alike (t.visitUnits isRecording m units).2 (t.visitUnits isRecording' m units).2 := by
  obtain ⟨hunits, hrelated⟩ :=
    visitUnits_twins t.carries_counted isRecording isRecording' (m := m) ⟨rfl, rfl⟩ units
  exact ⟨hunits, hrelated.journal.1, hrelated.scopes, hrelated.bound, hrelated.journal.2,
    hrelated.failure⟩

/-- Runs with limits beyond the number of declarations end alike: with the same counters or the same
failure, the same marks and the same trees. Only the report may differ. It is there exactly if it is
asked for and the run succeeds, and if both runs ask or neither does the results are the same. -/
theorem run_independent (m : Marks) (units : List SourceUnit) (s s' : Settings)
    (h : t.program.decls.size + 1 ≤ s.maxDepth) (h' : t.program.decls.size + 1 ≤ s'.maxDepth) :
    let out := t.run s m units
    let out' := t.run s' m units
    out'.result.map Summary.stats = out.result.map Summary.stats ∧ out'.marks = out.marks ∧
      out'.units = out.units ∧
      (∀ a, out.result = .ok a → a.report.isSome = s.collectReport) ∧
      (∀ a, out'.result = .ok a → a.report.isSome = s'.collectReport) ∧
      (s'.collectReport = s.collectReport → out'.result = out.result) := by
  have hdecide := Context.decideUnits_of_limit h' h m units
  simp only [run, hdecide]
  rcases Context.decideUnits (Context.mk t s.maxDepth) m units with ⟨_ | _, decided⟩
  · simp
  · obtain ⟨hunits, halike⟩ :=
      t.visitUnits_alike s.collectReport s'.collectReport decided.marks units
    simp only [hunits, halike.failure, halike.marks, halike.stats]
    cases (t.visitUnits s.collectReport decided.marks units).2.failure with
    | some e => simp
    | none =>
      have asked (b : Bool) (r : Report) : (if b then some r else none).isSome = b := by
        cases b <;> rfl
      refine ⟨rfl, rfl, rfl, fun a ha => ?_, fun a ha => ?_, fun hc => ?_⟩
      · cases ha
        exact asked _ _
      · cases ha
        exact asked _ _
      · simp only [hc]

/-- The table has three declarations. A run with a limit of four and one with a report and a far
higher limit box the iteration variable alike. -/
theorem run_independent_comprehension :
    let out := run ⟨.integers, .standard⟩ { maxDepth := 4 } {} [.comprehension]
    let out' :=
      run ⟨.integers, .standard⟩ { maxDepth := 300, collectReport := true } {} [.comprehension]
    out.result.isOk = true ∧ out.marks.unboxed ⟨1⟩ = some false ∧ out'.marks = out.marks ∧
      out'.units = out.units ∧ ∀ a, out'.result = .ok a → a.report.isSome = true := by
  obtain ⟨-, hmarks, hunits, -, hreport, -⟩ := run_independent ⟨.integers, .standard⟩ {}
    [.comprehension] { maxDepth := 4 } { maxDepth := 300, collectReport := true } (by decide)
    (by decide)
  exact ⟨by decide +kernel, by decide +kernel, hmarks, hunits, hreport⟩

end Target

end Unbox
