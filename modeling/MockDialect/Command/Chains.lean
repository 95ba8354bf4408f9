import MockDialect.Command.Encoding
import MockDialect.Command.Invocation
import MockDialect.Creation.Expand
import MockDialect.Creation.ToCall
import MockDialect.Creation.ToField
import MockDialect.Edit.Document

namespace MockDialect.Command

open Config Conversion Edit Files Json Recognition Source Text

/-- The configuration named on the command line, else the one found from a path; a convention on the
command line wins over both. -/
def configFor (w : World) (start : String) (given : Option String) (convention : Option Convention) :
    Except CommandError Config := do
  let found := match given with
    | some path => load w path
    | none => (discover w start).map Prod.fst
  match found with
  | .error error => throw (.config error)
  | .ok config =>
    return match convention with
      | some c => { config with convention := some c }
      | none => config

/-- A file that was read, and the configuration for it. -/
structure Loaded where
  text : String
  file : File
  config : Config

def loadPlace (w : World) (place : Place) : Except CommandError Loaded := do
  match w.read place.file with
  | .error error => throw (.unreadable error)
  | .ok bytes =>
    let text := (Lossy.read bytes).1
    let config ← configFor w place.file place.config place.convention
    return ⟨text, File.read text, config⟩

def linesAt (file : File) (place : Place) : Except CommandError Span :=
  let last := place.endLine.getD place.line
  match lineSpan? file.text place.line last with
  | some span => .ok span
  | none => .error (.noLines place.line last place.file)

/-- The offset in a line that a column stands for: none or zero is the first character that is not blank,
and columns past the end stand for the end. -/
def caretIn (line : List Char) : Option Nat → Nat
  | some (column + 1) => min column (width line)
  | _ => width (line.takeWhile isBlank)

def selectionAt (file : File) (place : Place) : Except CommandError Selection := do
  let span ← linesAt file place
  if place.endLine.isSome then return .range span
  return .caret (span.start + caretIn (slice file.text span).toList place.column)

/-- Like `selectionAt`, but a line without a column is selected as a whole, because a creation call need not
be the first thing in it. -/
def wideSelectionAt (file : File) (place : Place) : Except CommandError Selection := do
  match ← selectionAt file place with
  | .caret offset =>
    if place.column.isNone then return .range (← linesAt file place) else return .caret offset
  | selection => return selection

def inOrderBase (given : Option String) (config : Config) : Except CommandError String :=
  let base := given.getD config.inOrderVariable
  match Java.checkVariableName base with
  | .ok () => .ok base
  | .error error => .error (.badName error)

def orConversion {α : Type} : Except Failure α → Except CommandError α
  | .ok a => .ok a
  | .error failure => .error (.conversion failure)

def orRejection {α : Type} (r : Except Rejection α) : Except CommandError α :=
  orConversion (orUnavailable r)

def note (line : String) : String := line ++ "\n"

def Result.emit (r : Result) (text file : String) (write : Bool) : Result :=
  if write then { r with notes := r.notes ++ note ("Rewrote " ++ file), written := some (file, text) }
  else { r with output := r.output ++ text }

/-- A selected chain as it is reported. -/
structure ChainInfo where
  lineStart : Nat
  lineEnd : Nat
  text : String
  calls : List String
  foldable : List Nat
  violates : Option Bool

def chainInfo (file : File) (dialect : Dialect) (convention : Option Convention) (site : Site) :
    ChainInfo where
  lineStart := lineOf file.text site.chain.span.start
  lineEnd := lineOf file.text site.chain.span.stop
  text := slice file.text site.chain.span
  calls := site.chain.names
  foldable := match dialect with
    | .stubbing d => d.foldableCalls site.chain
    | .verification _ => []
  violates := convention.map fun c => c.isViolatedBy site.chain

def ChainInfo.value (i : ChainInfo) : Value :=
  .record ([("calls", .texts i.calls), ("lineEnd", .nat i.lineEnd), ("lineStart", .nat i.lineStart),
    ("mergeable", .array (i.foldable.map Value.nat)), ("text", .text i.text)] ++
    match i.violates with
    | some b => [("violatesConvention", .bool b)]
    | none => [])

def ChainInfo.lines (i : ChainInfo) (file : String) (convention : Option Convention) : List String :=
  ["  " ++ file ++ ":" ++ toString i.lineStart ++ ": " ++ " → ".intercalate i.calls] ++
  (if i.foldable.isEmpty then []
    else ["    mergeable: " ++ ", ".intercalate (i.foldable.filterMap fun n => i.calls[n]?)]) ++
  match i.violates, convention with
  | some true, some c => ["    breaks the " ++ c.name ++ " convention"]
  | _, _ => []

def classify (w : World) (place : Place) : Except CommandError Result := do
  let loaded ← loadPlace w place
  let selected ← orRejection (select loaded.file (← selectionAt loaded.file place))
  let flaw := match validate selected with
    | .ok () => none
    | .error rejection => some rejection.message
  let convention := loaded.config.convention
  let chains := selected.sites.map (chainInfo loaded.file selected.dialect convention)
  let dialect := selected.dialect
  if place.json then
    return { output := printed (.record [
      ("approach", .text dialect.name), ("bulk", .bool selected.bulk),
      ("chains", .array (chains.map ChainInfo.value)), ("family", .text dialect.family.name),
      ("presentable", .text dialect.presentable), ("reason", .optional flaw),
      ("valid", .bool flaw.isNone)]) }
  let lines := [dialect.presentable ++ " (" ++ dialect.name ++ ")"] ++
    chains.flatMap (fun i => i.lines place.file convention) ++
    (flaw.map ("  not well-formed: " ++ ·)).toList
  return { output := String.join (lines.map note) }

def padded (width : Nat) (text : String) : String :=
  text ++ String.ofList (List.replicate (width - text.length) ' ')

def targets (w : World) (place : Place) (inOrderName : Option String) : Except CommandError Result := do
  let loaded ← loadPlace w place
  let base ← inOrderBase inOrderName loaded.config
  let planner : Planner := ⟨loaded.file, loaded.config.policy, base⟩
  let selection ← selectionAt loaded.file place
  let selected ← orRejection (select loaded.file selection)
  orRejection (validate selected)
  let found := planner.availableTargets selection
  if place.json then
    return { output := printed (.array (found.map fun t => .record [
      ("family", .text t.family.name), ("presentable", .text t.presentable), ("target", .text t.name)])) }
  return {
    output := String.join (found.map fun t => note (padded 32 t.name ++ " " ++ t.presentable))
    notes := if found.isEmpty then note ("No conversion available for " ++ selected.dialect.presentable)
      else "" }

def convertAt (w : World) (place : Place) (target : Target) (inOrderName : Option String) (write : Bool) :
    Except CommandError Result := do
  let loaded ← loadPlace w place
  let base ← inOrderBase inOrderName loaded.config
  let selection ← selectionAt loaded.file place
  let (report, text) := convert loaded.text selection target loaded.config.policy base
  let done := report.outcome = .converted
  let shown := if done && !write then [("text", Value.text text)] else []
  let output := if place.json then printed (.record (reportMembers report ++ shown)) else ""
  if !done then
    return { output, error := some (.stopped report.outcome (report.reason.getD "")) }
  let result : Result := { output, notes := note report.summary }
  if place.json && !write then return result
  return result.emit text place.file write

def carryOut (loaded : Loaded) (plan : Plan) (place : Place) (write : Bool) : Except CommandError Result := do
  let (answer, document) := Document.apply ⟨loaded.text⟩ plan
  if let .error error := answer then throw (.conversion (.edit error))
  if place.json then
    let result : Result := { output := printed (planValue plan) }
    return if write then result.emit document.text place.file write else result
  let result : Result := { notes := note plan.summary }
  return result.emit document.text place.file write

def mergeThrows (w : World) (place : Place) (form : Option Stubbing.ThrowForm) (write : Bool) :
    Except CommandError Result := do
  let loaded ← loadPlace w place
  let selection ← selectionAt loaded.file place
  let planner : Planner := { file := loaded.file, policy := loaded.config.policy }
  carryOut loaded (← orConversion (planner.planMerge selection form)) place write

def throwArgs (w : World) (place : Place) (write : Bool) : Except CommandError Result := do
  let loaded ← loadPlace w place
  let selection ← selectionAt loaded.file place
  let planner : Planner := { file := loaded.file, policy := loaded.config.policy }
  carryOut loaded (← orConversion (planner.planThrowToggle selection)) place write

def toField (w : World) (place : Place) (write : Bool) : Except CommandError Result := do
  let loaded ← loadPlace w place
  let selection ← wideSelectionAt loaded.file place
  carryOut loaded (← orConversion (Creation.planToField loaded.file selection)) place write

def toCall (w : World) (place : Place) (method : String) (write : Bool) : Except CommandError Result := do
  if let .error error := Java.checkVariableName method then throw (.badName error)
  let loaded ← loadPlace w place
  let selection ← selectionAt loaded.file place
  carryOut loaded (← orConversion (Creation.planToCall loaded.file selection method)) place write

def expandMock (w : World) (place : Place) (write : Bool) : Except CommandError Result := do
  let loaded ← loadPlace w place
  let selection ← wideSelectionAt loaded.file place
  carryOut loaded (← orConversion (Creation.planExpand loaded.file selection)) place write

end MockDialect.Command
