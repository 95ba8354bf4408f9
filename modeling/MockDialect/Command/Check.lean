import MockDialect.Command.Chains
import MockDialect.Ignore.Walk
import MockDialect.Pattern.Expression

namespace MockDialect.Command

open Config Files Json Recognition Source Text

/-- The violations in a file. -/
structure FileReport where
  path : String
  violations : List Violation

def hasExtension (name wanted : String) : Bool :=
  match extension? name with
  | some found => found.toList.map Char.toLower == wanted.toList.map Char.toLower
  | none => false

def filesToCheck (w : World) (request : CheckRequest) (filter : Option Pattern) :
    List (String × List UInt8) :=
  (Ignore.walk request.versionControl w request.directory).filterMap fun (names, content) =>
    let path := withoutLongMarker (names.foldl join request.directory)
    if hasExtension (names.getLastD "") request.extension && filter.all (·.occursIn path.toList) then
      some (path, content)
    else none

def violationsIn (files : List (String × List UInt8)) (convention : Convention) : List FileReport :=
  let reports := files.map fun (path, content) =>
    ⟨path, Recognition.check (File.read (Lossy.read content).1) convention⟩
  Order.sortBy (fun a b => decide (a.path ≤ b.path))
    (reports.filter fun (r : FileReport) => !r.violations.isEmpty)

def FileReport.value (r : FileReport) : Value :=
  .record [("path", .text r.path), ("violations", .array (r.violations.map violationValue))]

def FileReport.lines (r : FileReport) : List String :=
  r.violations.map fun v => r.path ++ ":" ++ toString v.line ++ ":" ++ toString v.column ++ ": " ++
    v.method ++ ": " ++ v.message

def readFilter : Option String → Except CommandError (Option Pattern)
  | none => .ok none
  | some text =>
    match Pattern.parse? text with
    | some p => .ok (some p)
    | none => .error (.malformedPattern text)

def check (w : World) (request : CheckRequest) : Except CommandError Result := do
  if !w.isDirectory request.directory then throw (.noDirectory request.directory)
  let config ← configFor w request.directory request.config request.convention
  let some convention := config.convention | throw .noConvention
  let filter ← readFilter request.filter
  let files := filesToCheck w request filter
  let found := violationsIn files convention
  let total := (found.flatMap (·.violations)).length
  return {
    output := if request.json then printed (.array (found.map FileReport.value))
      else String.join ((found.flatMap FileReport.lines).map note)
    notes := "\n" ++ note (toString total ++ " violations in " ++ toString found.length ++ " of " ++
      toString files.length ++ " files (" ++ convention.name ++ " convention)")
    error := if total = 0 then none else some (.violations total) }

end MockDialect.Command
