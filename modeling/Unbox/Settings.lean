import Unbox.Json
import Unbox.Json.Reader
import Unbox.Refinement

/-!
# Settings of a run

Settings shape reports and limits; every rule always applies. They are written as a JSON object and
read from one, by name, or from an array, by position. What is left out has its default.
-/

namespace Unbox

structure Settings where
  collectReport : Bool := false
  /-- The longest refinement chain that is followed. -/
  maxDepth : Nat := Program.defaultLimit
  logLevel : Option String := none
deriving DecidableEq

namespace Settings
open Json

/-- A report and detailed logging. -/
def debugging : Settings := { collectReport := true, logLevel := some "debug" }

def toJson (s : Settings) : Json :=
  .object
    [("collect_report", .bool s.collectReport),
      ("max_refinement_depth", .natural s.maxDepth),
      ("log_level", match s.logLevel with
        | some level => .string level
        | none => .null)]

def render (s : Settings) : String := s.toJson.render

/-! ## Reading -/

/-- The settings found so far. -/
structure Found where
  collectReport : Option Bool := none
  maxDepth : Option Nat := none
  logLevel : Option (Option String) := none

def Found.settings (f : Found) : Settings where
  collectReport := f.collectReport.getD false
  maxDepth := f.maxDepth.getD Program.defaultLimit
  logLevel := f.logLevel.getD none

/-- The value of the member `key`, which must not have come before. Members of other names are
passed over. -/
def readMember (key : String) (f : Found) : Read Found := fun cs =>
  if key = "collect_report" then do
    if f.collectReport.isSome then .error .wrongData
    let ((), cs) ← readColon cs
    let (b, cs) ← readBool cs
    return ({ f with collectReport := some b }, cs)
  else if key = "max_refinement_depth" then do
    if f.maxDepth.isSome then .error .wrongData
    let ((), cs) ← readColon cs
    let (n, cs) ← readNatural cs
    return ({ f with maxDepth := some n }, cs)
  else if key = "log_level" then do
    if f.logLevel.isSome then .error .wrongData
    let ((), cs) ← readColon cs
    let (level, cs) ← readOptional readString cs
    return ({ f with logLevel := some level }, cs)
  else do
    let ((), cs) ← readColon cs
    let ((), cs) ← skipValue cs
    return (f, cs)

/-- The members of an object; `fuel` is more than their number. -/
def readMembers : Nat → Bool → Found → Read Found
  | 0, _, _, _ => .error .endOfText
  | fuel + 1, isFirst, f, cs => do
    match ← readKey isFirst cs with
    | (none, cs) => return (f, cs)
    | (some key, cs) =>
      let (f, cs) ← readMember key f cs
      readMembers fuel false f cs

def readObject : Read Settings := fun cs => do
  let (f, cs) ← readMembers (cs.length + 1) true {} cs
  let ((), cs) ← readClose '}' cs
  return (f.settings, cs)

def readArray : Read Settings := fun cs => do
  let (collectReport, cs) ← readElement true readBool cs
  let (maxDepth, cs) ← readElement false readNatural cs
  let (logLevel, cs) ← readElement false (readOptional readString) cs
  let ((), cs) ← readClose ']' cs
  return (Found.settings ⟨collectReport, maxDepth, logLevel⟩, cs)

/-- The settings of a JSON text. -/
def read (text : String) : Except Problem Settings := do
  let (s, cs) ← match skipBlanks text.toList with
    | '[' :: rest => readArray rest
    | '{' :: rest => readObject rest
    | other => .error (wrongShape other)
  readEnd cs
  return s

end Settings

end Unbox
