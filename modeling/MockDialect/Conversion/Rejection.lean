import MockDialect.Conversion.Target
import MockDialect.Edit.Plan
import MockDialect.Settings.Spelling

namespace MockDialect.Conversion

open Edit Recognition Settings

/-- Why a selection cannot be brought into the form asked for. -/
inductive Rejection where
  | notClassified
  | emptySelection
  | invalid (dialect : Dialect) (flaw : Flaw)
  | mixedDialects (first other : Dialect)
  | unsupportedSetter (method : String) (target : Stubbing.Dialect)
  | targetNotAllowed (target : Target)
  | notATarget (dialect : Dialect) (target : Target)
  | mixedInOrder
  | unresolvedMockedStatic (reference : String)
  | argumentsNotConvertible (method : String)
  | nothingToMerge
  | noMockCreation
  | noMockField
  | noTargetMethod (method : String)
  | fieldNameTaken (name : String)

def Rejection.message : Rejection → String
  | notClassified => "the selection does not contain a recognized stubbing or verification chain"
  | emptySelection => "the selection is empty"
  | invalid dialect flaw => dialect.presentable ++ " chain is not well-formed: " ++ flaw.message
  | mixedDialects first other =>
    "selected chains use different approaches (" ++ first.presentable ++ " and " ++ other.presentable ++ ")"
  | unsupportedSetter method target => "'" ++ method ++ "' has no counterpart in " ++ target.presentable
  | targetNotAllowed target => target.presentable ++ " is not allowed by the enforced convention"
  | notATarget dialect target =>
    target.presentable ++ " is not a conversion target of " ++ dialect.presentable
  | mixedInOrder => "selected chains use different InOrder objects"
  | unresolvedMockedStatic reference => "cannot resolve the mocked class of '" ++ reference ++ "'"
  | argumentsNotConvertible method => "throw arguments of '" ++ method ++ "' cannot be converted"
  | nothingToMerge => "no consecutive calls to merge"
  | noMockCreation => "the selection is not a convertible Mockito.mock() or Mockito.spy() call"
  | noMockField => "the selection is not a field annotated with exactly one of @Mock and @Spy"
  | noTargetMethod method => "no method '" ++ method ++ "' in the class declaring the field"
  | fieldNameTaken name => "the class already declares a field named '" ++ name ++ "'"

inductive Failure where
  | unavailable (rejection : Rejection)
  | edit (error : EditError)
  | setting (error : SettingError)

def Failure.message : Failure → String
  | unavailable rejection => "Conversion unavailable: " ++ rejection.message
  | edit error => error.message
  | setting error => error.message

def orUnavailable {α : Type} : Except Rejection α → Except Failure α
  | .ok a => .ok a
  | .error rejection => .error (.unavailable rejection)

def orSetting {α : Type} : Except SettingError α → Except Failure α
  | .ok a => .ok a
  | .error error => .error (.setting error)

def planOf (revision : UInt64) (edits : List Edit) (summary : String) : Except Failure Plan :=
  match Plan.make revision edits summary with
  | .ok plan => .ok plan
  | .error error => .error (.edit error)

def plural (count : Nat) (word : String) : String := if count = 1 then word else word ++ "s"

end MockDialect.Conversion
