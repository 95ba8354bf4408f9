import MockDialect.Conversion.Planner

namespace MockDialect.Conversion

open Edit Recognition Source

inductive Outcome where
  | rejected | converted | failed
  deriving DecidableEq

def Outcome.name : Outcome → String
  | rejected => "rejected"
  | converted => "rewritten"
  | failed => "failed"

structure Report where
  outcome : Outcome
  source : Option Dialect
  target : Target
  chains : Nat
  summary : String
  reason : Option String

def stopped (outcome : Outcome) (target : Target) (source : Option Dialect) (reason : String) : Report :=
  ⟨outcome, source, target, 0, "", some reason⟩

/-- The report for a plan that was not made. -/
def unplanned (target : Target) (source : Dialect) : Failure → Report
  | .unavailable rejection => stopped .rejected target (some source) rejection.message
  | failure => stopped .failed target (some source) failure.message

def Planner.convert (p : Planner) (selection : Selection) (target : Target) : Report × String :=
  match select p.file selection with
  | .error rejection => (stopped .rejected target none rejection.message, p.file.source)
  | .ok selected =>
    match validate selected with
    | .error rejection => (stopped .rejected target (some selected.dialect) rejection.message, p.file.source)
    | .ok () =>
      match p.planSelected selected target with
      | .error failure => (unplanned target selected.dialect failure, p.file.source)
      | .ok plan =>
        match plan.apply p.file.source with
        | .error error => (stopped .failed target (some selected.dialect) error.message, p.file.source)
        | .ok result =>
          (⟨.converted, some selected.dialect, target, selected.sites.length, plan.summary, none⟩, result)

def convert (text : String) (selection : Selection) (target : Target) (policy : Policy)
    (inOrderBase : String) : Report × String :=
  Planner.convert ⟨File.read text, policy, inOrderBase⟩ selection target

end MockDialect.Conversion
