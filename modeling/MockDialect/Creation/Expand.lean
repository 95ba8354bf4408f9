import MockDialect.Conversion.Declaration
import MockDialect.Creation.CreationCall

namespace MockDialect.Creation

open Chain Conversion Edit Settings Source Text

def spiedType? (f : File) (a : Arg) : Option String :=
  match a.kind with
  | .newInstance typeName _ => some (rawType typeName)
  | .reference =>
    match f.lookup? (withoutThis a.text) a.span.start with
    | some v => if v.declaredType = "var" then none else some (rawType v.declaredType)
    | none => none
  | _ => none

def isOverload (a : Arg) : Bool :=
  (a.isStringLiteral || a.isReference) && a.apiType != some .mockSettings

/-- The edit that spells a creation call out. A spy becomes a mock that calls the real methods of the
instance. -/
def expandCall? (f : File) (c : CreationCall) : Option Edit :=
  match c.kind, c.call.args with
  | .mock, [mocked, second] =>
    if mocked.isClassLiteral && isOverload second then
      some (replace second.span ("Mockito.withSettings()" ++ (overloadSetting f second).spell))
    else none
  | .spy, [spied] =>
    (spiedType? f spied).map fun type =>
      replace c.call.span ("Mockito.mock(" ++ type ++ ".class, Mockito.withSettings().spiedInstance(" ++
        spied.text ++ ").defaultAnswer(Mockito.CALLS_REAL_METHODS))")
  | _, _ => none

def planExpand (f : File) (selection : Selection) : Except Failure Plan := do
  let some c := creationCall? f selection | throw (.unavailable .noMockCreation)
  let some edit := expandCall? f c | throw (.unavailable .noMockCreation)
  planOf f.revision (edit :: (planImports f.imports [Api.EntryClass.mockito.qualifiedName]).toList)
    ("expanded Mockito." ++ c.kind.method ++ "()")

end MockDialect.Creation
