import MockDialect.Api.EntryClass
import MockDialect.Settings.Attributes

namespace MockDialect.Settings

/-- Why settings could not be read or written. -/
inductive SettingError where
  | unsupported (setting : String)
  | noAnnotationIn (snippet : String)
  | notCall (snippet : String)

def SettingError.message : SettingError → String
  | unsupported setting => "Mock setting '" ++ setting ++ "' cannot be translated"
  | noAnnotationIn snippet => "Failed to parse Java source: no annotation in '" ++ snippet ++ "'"
  | notCall snippet => "Failed to parse Java source: '" ++ snippet ++ "' is not a method call"

namespace Attributes

def settingsText (a : Attributes) : String :=
  "Mockito.withSettings()" ++ String.join (a.toBuilderCalls.map (·.spell))

def requiredImports (a : Attributes) : List String :=
  Api.EntryClass.mockito.qualifiedName ::
    if a.strictness.isSome then ["org.mockito.quality.Strictness"] else []

def overloadText (a : Attributes) : String :=
  if a.isDefault then ""
  else if a == { name := a.name } then ", " ++ a.name.getD ""
  else if a == { answer := a.answer } then ", " ++ a.answer.getD ""
  else ", " ++ a.settingsText

def creationText (a : Attributes) (typeName : String) : String :=
  "Mockito.mock(" ++ typeName ++ ".class" ++ a.overloadText ++ ")"

def pairTexts (a : Attributes) : List String :=
  (if a.lenient then ["lenient = true"] else []) ++
  (a.name.map ("name = " ++ ·)).toList ++
  (a.strictness.map fun s => "strictness = Mock.Strictness." ++ s.constant).toList ++
  (a.mockMaker.map ("mockMaker = " ++ ·)).toList ++
  (a.answer.map ("answer = " ++ ·)).toList ++
  (if a.serializable then ["serializable = true"] else []) ++
  (if a.stubOnly then ["stubOnly = true"] else []) ++
  match a.extraInterfaces with
  | [] => []
  | [single] => ["extraInterfaces = " ++ single]
  | many => ["extraInterfaces = \x7b" ++ ", ".intercalate many ++ "\x7d"]

def annotationText (a : Attributes) : Except SettingError String :=
  if a.serializableMode.isSome then .error (.unsupported "serializable(SerializableMode)")
  else
    match a.pairTexts with
    | [] => .ok "@Mock"
    | pairs => .ok ("@Mock(" ++ ", ".intercalate pairs ++ ")")

end Attributes

end MockDialect.Settings
