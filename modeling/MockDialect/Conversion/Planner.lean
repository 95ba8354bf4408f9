import MockDialect.Conversion.Merge
import MockDialect.Conversion.Stubbing
import MockDialect.Conversion.Verification

namespace MockDialect.Conversion

open Chain Edit Recognition Source
open Stubbing (ThrowForm Run)

/-- What plans are made for. -/
structure Planner where
  file : File
  policy : Policy := {}
  inOrderBase : String := "inOrder"

namespace Planner

def editsFor (p : Planner) (selected : Selected) (target : Target) : Except Rejection Planned :=
  match selected.dialect, target with
  | .stubbing source, .stubbing goal => do
    let edits ← selected.sites.mapM fun site => convertStubbing site.chain source goal
    return ⟨edits, [goal.entryClass.qualifiedName]⟩
  | .verification source, .verification goal =>
    convertVerification p.file selected.sites source goal p.inOrderBase
  | dialect, _ => .error (.notATarget dialect target)

def summaryOf (selected : Selected) (target : Target) : String :=
  selected.dialect.presentable ++ " → " ++ target.presentable ++ " (" ++
    toString selected.sites.length ++ " " ++ plural selected.sites.length "chain" ++ ")"

def planSelected (p : Planner) (selected : Selected) (target : Target) : Except Failure Plan := do
  if !p.policy.allows target.family then throw (.unavailable (.targetNotAllowed target))
  let planned ← orUnavailable (p.editsFor selected target)
  planOf p.file.revision (planned.edits ++ (planImports p.file.imports planned.imports).toList)
    (summaryOf selected target)

def plan (p : Planner) (selection : Selection) (target : Target) : Except Failure Plan := do
  let selected ← orUnavailable (select p.file selection)
  orUnavailable (validate selected)
  p.planSelected selected target

def availableTargets (p : Planner) (selection : Selection) : List Target :=
  match select p.file selection with
  | .error _ => []
  | .ok selected =>
    match validate selected with
    | .error _ => []
    | .ok () => (targetsOf selected.dialect).filter fun target => (p.planSelected selected target).isOk

def selectStubbing (p : Planner) (selection : Selection) :
    Except Rejection (Stubbing.Dialect × List Site) :=
  match select p.file selection with
  | .ok selected =>
    match selected.dialect with
    | .stubbing d => .ok (d, selected.sites)
    | .verification _ => .error .notClassified
  | .error rejection =>
    match selectMockedStatic? p.file selection with
    | some sites => .ok (.mockitoWhen, sites)
    | none => .error rejection

def chooseForm (wanted : Option ThrowForm) (run : Run) : ThrowForm :=
  match wanted with
  | some form => if run.forms.contains form then form else run.forms.headD .keep
  | none => run.forms.headD .keep

def mergeChain (d : Stubbing.Dialect) (wanted : Option ThrowForm) (chain : Chain) :
    Except Rejection (List Edit) :=
  (d.throwRuns chain ++ d.returnRuns chain).mapM fun run => mergeRun chain run (chooseForm wanted run)

def planMerge (p : Planner) (selection : Selection) (wanted : Option ThrowForm) : Except Failure Plan := do
  let (d, sites) ← orUnavailable (p.selectStubbing selection)
  let edits ← orUnavailable (sites.mapM fun site => mergeChain d wanted site.chain)
  let edits := edits.flatten
  if edits.isEmpty then throw (.unavailable .nothingToMerge)
  planOf p.file.revision edits
    ("merged " ++ toString edits.length ++ " " ++ plural edits.length "run")

/-- A plan that turns what the selected chains throw into the other form. Setters without another form
are left alone; only if there is no other setter the request is turned down. -/
def planThrowToggle (p : Planner) (selection : Selection) : Except Failure Plan := do
  let selected ← orUnavailable (select p.file selection)
  let .stubbing d := selected.dialect | throw (.unavailable .notClassified)
  let calls := (selected.sites.flatMap fun site => d.setterCalls site.chain).filter d.isThrow
  let toggled := calls.map (toggleThrow d)
  let edits := toggled.flatMap fun
    | .ok edits => edits
    | .error _ => []
  if edits.isEmpty then
    throw (.unavailable (.argumentsNotConvertible d.throwMethod))
  planOf p.file.revision edits ("converted " ++ d.presentable ++ " throw arguments")

end Planner

end MockDialect.Conversion
