import MockDialect.Command.Check

namespace MockDialect.Command

open Files Json Settings

def fromMarker (snippet : String) (request : SettingsRequest) : Except SettingError Result := do
  let attributes ← parseAnnotationText snippet
  let code := match request.type with
    | some type => attributes.creationText type
    | none => attributes.settingsText
  let imports := attributes.requiredImports
  return { output := if request.json then
      printed (.record [("attributes", attributesValue attributes), ("code", .text code),
        ("imports", .texts imports)])
    else String.join (imports.map fun name => note ("import " ++ name ++ ";")) ++ "\n" ++ note code }

def fromCall (snippet : String) (request : SettingsRequest) : Except SettingError Result := do
  let (type, attributes) ← parseMockCall snippet
  let code ← attributes.annotationText
  return { output := if request.json then
      printed (.record [("attributes", attributesValue attributes), ("code", .text code),
        ("type", .text type)])
    else note code }

def settings (request : SettingsRequest) : Except CommandError Result :=
  let result := match request.marker, request.call with
    | some snippet, _ => some (fromMarker snippet request)
    | none, some snippet => some (fromCall snippet request)
    | none, none => none
  match result with
  | none => .error .noSettings
  | some (.error error) => .error (.setting error)
  | some (.ok result) => .ok result

def Invocation.run (w : World) : Invocation → Except CommandError Result
  | classify place => Command.classify w place
  | targets place inOrderName => Command.targets w place inOrderName
  | convert place target inOrderName write => convertAt w place target inOrderName write
  | mergeThrows place form write => Command.mergeThrows w place form write
  | throwArgs place write => Command.throwArgs w place write
  | toField place write => Command.toField w place write
  | toCall place method write => Command.toCall w place method write
  | expandMock place write => Command.expandMock w place write
  | settings request => Command.settings request
  | check request => Command.check w request

/-- What comes of a command line, unless it is none. -/
def run (w : World) (arguments : List String) : Except Stop Result := do
  let invocation ← Invocation.parse arguments
  return .ofExcept (invocation.run w)

end MockDialect.Command
