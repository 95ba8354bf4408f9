import MockDialect.Chain.Chain
import MockDialect.Settings.Spelling

namespace MockDialect.Settings

open Api Chain Java Source Text

/-- A strictness by its constant; the constant for the default gives none. -/
def readStrictness (text : String) : Except SettingError (Option Strictness) :=
  let constant := trim (simpleName text)
  match Strictness.ofConstant? constant with
  | some s => .ok (some s)
  | none =>
    if constant = "TEST_LEVEL_DEFAULT" then .ok none else .error (.unsupported ("strictness " ++ text))

def readBool (key text : String) : Except SettingError Bool :=
  if text = "true" then .ok true
  else if text = "false" then .ok false
  else .error (.unsupported (key ++ " = " ++ text))

def readInterfaces (f : File) (value : Node) : List String :=
  if value.kind = .elementValueArray then value.codeChildren.map f.spell else [f.spell value]

def readPair (f : File) (a : Attributes) (key : String) (value : Node) : Except SettingError Attributes :=
  let text := f.spell value
  match key with
  | "name" => .ok { a with name := givenName text }
  | "answer" => .ok { a with answer := givenAnswer text }
  | "extraInterfaces" => .ok { a with extraInterfaces := readInterfaces f value }
  | "serializable" => do return { a with serializable := ← readBool key text }
  | "stubOnly" => do return { a with stubOnly := ← readBool key text }
  | "lenient" => do return { a with lenient := ← readBool key text }
  | "strictness" => do return { a with strictness := ← readStrictness text }
  | "mockMaker" => .ok { a with mockMaker := some text }
  | other => .error (.unsupported other)

def readElement (f : File) (a : Attributes) (element : Node) : Except SettingError Attributes :=
  if element.kind ≠ .elementValuePair then .error (.unsupported (f.spell element))
  else
    match element.child? .value with
    | none => .ok a
    | some value => readPair f a (((element.child? .key).map f.spell).getD "") value

def ofAnnotationNode (f : File) (n : Node) : Except SettingError Attributes :=
  match if n.kind = .annotationMarker then none else n.child? .arguments with
  | none => .ok {}
  | some arguments => arguments.codeChildren.foldlM (readElement f) {}

def readBuilderCall (call : Call) : Except SettingError BuilderCall :=
  match call.name, call.args with
  | "lenient", [] => .ok .lenient
  | "name", [a] => .ok (.name a.text)
  | "strictness", [a] =>
    match readStrictness a.text with
    | .ok (some s) => .ok (.strictness s)
    | .ok none => .error (.unsupported ("strictness " ++ a.text))
    | .error error => .error error
  | "mockMaker", [a] => .ok (.mockMaker a.text)
  | "defaultAnswer", [a] => .ok (.defaultAnswer a.text)
  | "serializable", [] => .ok (.serializable none)
  | "serializable", [a] => .ok (.serializable (some a.text))
  | "stubOnly", [] => .ok .stubOnly
  | "extraInterfaces", a :: args => .ok (.extraInterfaces ((a :: args).map (·.text)))
  | name, _ => .error (.unsupported name)

def ofSettingsChain (chain : Chain) : Except SettingError Attributes :=
  match chain.calls with
  | [] => .error (.unsupported "empty settings chain")
  | first :: rest =>
    if first.name ≠ "withSettings" ∨ first.receiver ≠ .entry .mockito ∨ !first.args.isEmpty then
      .error (.unsupported first.name)
    else do return .ofBuilderCalls (← rest.mapM readBuilderCall)

def isStringVariable (f : File) (a : Arg) : Bool :=
  a.isReference && (f.lookup? (withoutThis a.text) a.span.start).any fun v =>
    v.declaredType == "String" || v.declaredType == "java.lang.String"

/-- What the second argument of a creation call sets, if it is no settings: a string gives the name, all
else the answer. -/
def overloadSetting (f : File) (a : Arg) : BuilderCall :=
  if a.isStringLiteral || isStringVariable f a then .name a.text else .defaultAnswer a.text

/-- The chain that a variable of settings is initialized with. What is called on the variable later is
not followed. -/
def settingsOfVariable (f : File) (a : Arg) : Except SettingError Attributes :=
  match ((f.lookup? (withoutThis a.text) a.span.start).bind (·.initializer)).bind f.callWithSpan? with
  | some call => ofSettingsChain (chainOf f call)
  | none => .error (.unsupported ("settings variable " ++ a.text))

def ofSecondArgument (f : File) (a : Arg) : Except SettingError Attributes :=
  match a.kind with
  | .reference =>
    if a.apiType = some .mockSettings then settingsOfVariable f a
    else .ok (.ofBuilderCalls [overloadSetting f a])
  | .stringLiteral => .ok (.ofBuilderCalls [overloadSetting f a])
  | .call _ =>
    match f.callWithSpan? a.span with
    | some call => ofSettingsChain (chainOf f call)
    | none => .error (.unsupported a.text)
  | _ => .error (.unsupported a.text)

def mockedType (a : Arg) : Except SettingError String :=
  match a.kind with
  | .classLiteral typeName => .ok typeName
  | _ => .error (.unsupported a.text)

def ofMockCall (f : File) (n : Node) : Except SettingError (String × Attributes) :=
  match readCall? f n with
  | none => .error (.unsupported (f.spell n))
  | some call =>
    if call.name ≠ "mock" ∨ call.receiver ≠ .entry .mockito then .error (.unsupported call.name)
    else
      match call.args with
      | [a] => do return (← mockedType a, {})
      | [a, b] => do return (← mockedType a, ← ofSecondArgument f b)
      | _ => .error (.unsupported call.name)

def snippetImports : String := "import org.mockito.*;\nimport static org.mockito.Mockito.*;\n\n"

def isMockName (name : String) : Bool := name == "Mock" || name == "org.mockito.Mock"

def parseAnnotationText (snippet : String) : Except SettingError Attributes :=
  let f := File.read
    (snippetImports ++ "class Snippet \x7b\n    " ++ snippet ++ "\n    Object field;\n\x7d\n")
  match f.cursors.find? fun c => c.kind == .annotationCall || c.kind == .annotationMarker with
  | none => .error (.noAnnotationIn snippet)
  | some c =>
    let name := ((c.node.child? .name).map f.spell).getD ""
    if isMockName name then ofAnnotationNode f c.node else .error (.unsupported ("@" ++ name))

def parseMockCall (snippet : String) : Except SettingError (String × Attributes) :=
  let f := File.read (snippetImports ++ "class Snippet \x7b\n    Object value = " ++ snippet ++ ";\n\x7d\n")
  match (f.cursors.find? (·.kind == .variableDeclarator)).bind (·.node.child? .value) with
  | some value => if value.isCall then ofMockCall f value else .error (.notCall snippet)
  | none => .error (.notCall snippet)

end MockDialect.Settings
