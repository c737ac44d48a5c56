import Unbox.Decision.Walk
import Unbox.Diagnostic
import Unbox.Report
import Unbox.Settings

/-!
# Runs: all units of a program

All declarations of all units are decided first, then every expression gets its flags, so that the
rules see decided declarations across units. The first failure ends the run; what was found before
it stays.
-/

namespace Unbox

structure Summary where
  stats : RunStats
  /-- Present if the settings ask for it. -/
  report : Option Report

/-- What a run leaves behind, whether it failed or not. -/
structure Outcome where
  result : Except Failure Summary
  marks : Marks
  units : List SourceUnit

namespace Context
variable (c : Context)

/-- Decides the declarations of all units. -/
def decideUnits (m : Marks) (units : List SourceUnit) : Except Failure Unit × Decisions :=
  (units.forM c.decideUnit).run.run { marks := m }

end Context

namespace Target
variable (t : Target)

/-- Gives all expressions of all units their flags. -/
def visitUnits (isRecording : Bool) (m : Marks) (units : List SourceUnit) :
    List SourceUnit × Visit :=
  (units.mapM t.visitUnit).run { marks := m, isRecording }

/-- Analyses all units of a program. -/
def run (settings : Settings) (m : Marks) (units : List SourceUnit) : Outcome :=
  match Context.decideUnits { t with limit := settings.maxDepth } m units with
  | (.error e, decisions) => ⟨.error e, decisions.marks, units⟩
  | (.ok (), decisions) =>
    let (visited, visit) := t.visitUnits settings.collectReport decisions.marks units
    match visit.failure with
    | some e => ⟨.error e, visit.marks, visited⟩
    | none =>
      let stats : RunStats := ⟨decisions.stats, visit.stats⟩
      let names := ", ".intercalate (units.map SourceUnit.name)
      let report :=
        if settings.collectReport then
          some (.collect names t.program visit.marks visit.records.toList stats)
        else none
      ⟨.ok ⟨stats, report⟩, visit.marks, visited⟩

end Target

/-! ## Failures as diagnostics -/

namespace Failure

/-- The span of a location, unless that is unknown or not in the sources. -/
def span? (sources : SourceMap) (l : Location) : Option Span :=
  if l = .unknown then none else sources.spanAt? ⟨l.file⟩ l.line l.column

def diagnostic (e : Failure) (sources : SourceMap) : Diagnostic :=
  (Diagnostic.internal "representation analysis" (Code.format e.code.number) e.message
    (span? sources e.location)).withHelp e.code.help

end Failure

end Unbox
