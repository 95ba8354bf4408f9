import MockDialect.Command.Outcome
import MockDialect.Json.Value

namespace MockDialect.Command

open Conversion Edit Json Recognition Settings Text

def printed (v : Value) : String := v.render 0 ++ "\n"

def spanValue (s : Span) : Value := .record [("start", .nat s.start), ("end", .nat s.stop)]

def editValue (e : Edit) : Value :=
  .record [("span", spanValue e.span), ("replacement", .text e.replacement)]

def planValue (p : Plan) : Value :=
  .record [("revision", .nat p.revision.toNat), ("edits", .array (p.edits.map editValue)),
    ("summary", .text p.summary)]

/-- The constant that stands for a stubbing dialect. -/
def stubbingConstant : Stubbing.Dialect → String
  | .mockitoWhen => "MockitoWhen"
  | .mockitoDo => "MockitoDoX"
  | .bddGiven => "BddMockitoGiven"
  | .bddWill => "BddMockitoWillX"

/-- The constant that stands for a form of verification. -/
def verificationConstant : Verification.Target → String
  | .mockitoVerify => "MockitoVerify"
  | .thenShould => "BddThenShould"
  | .thenShouldInOrder => "BddThenShouldInOrder"
  | .addInOrder => "AddInOrderToBdd"
  | .inOrderVerify => "InOrderVerify"
  | .inOrderVerifyStatic => "InOrderVerifyMockedStatic"
  | .staticVerify => "MockedStaticVerify"

def targetConstants : Target → String × String
  | .stubbing d => ("stubbing", stubbingConstant d)
  | .verification t => ("verification", verificationConstant t)

def targetValue (t : Target) : Value :=
  let (dialect, target) := targetConstants t
  .record [("dialect", .text dialect), ("target", .text target)]

def reportMembers (r : Report) : List (String × Value) :=
  [("state", .text r.outcome.name), ("source", .optional (r.source.map Dialect.name)),
   ("target", targetValue r.target), ("chains", .nat r.chains), ("summary", .text r.summary),
   ("reason", .optional r.reason)]

def violationValue (v : Violation) : Value :=
  .record [("line", .nat v.line), ("column", .nat v.column), ("method", .text v.method),
    ("span", spanValue v.span), ("message", .text v.message)]

def attributesValue (a : Attributes) : Value :=
  .record [("answer", .optional a.answer), ("extraInterfaces", .texts a.extraInterfaces),
    ("lenient", .bool a.lenient), ("mockMaker", .optional a.mockMaker), ("name", .optional a.name),
    ("serializable", .bool a.serializable), ("serializableMode", .optional a.serializableMode),
    ("strictness", .optional (a.strictness.map Strictness.constant)), ("stubOnly", .bool a.stubOnly)]

end MockDialect.Command
