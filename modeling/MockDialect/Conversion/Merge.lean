import MockDialect.Conversion.Rejection

namespace MockDialect.Conversion

open Chain Edit Stubbing

def mergeRun (chain : Chain) (run : Run) (form : ThrowForm) : Except Rejection Edit :=
  if run.indices.length < 2 then .error .nothingToMerge
  else if !run.forms.contains form then .error (.argumentsNotConvertible run.method)
  else
    match run.indices.head?.bind chain.get?, run.indices.getLast?.bind chain.get? with
    | some first, some last =>
      let args := ((callsAt chain run.indices).flatMap (·.args)).map form.convert
      .ok (replace ⟨first.nameSpan.start, last.span.stop⟩ (first.name ++ "(" ++ ", ".intercalate args ++ ")"))
    | _, _ => .error .nothingToMerge

/-- The edits that turn the arguments of a throwing setter into the other form. -/
def toggleThrow (d : Dialect) (call : Call) : Except Rejection (List Edit) :=
  match d.throwToggle? call with
  | some form => .ok (call.args.map fun a => replace a.span (form.convert a))
  | none => .error (.argumentsNotConvertible call.name)

end MockDialect.Conversion
