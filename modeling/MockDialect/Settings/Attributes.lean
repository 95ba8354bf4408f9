import MockDialect.Text.Blank
import MockDialect.Text.Dotted

namespace MockDialect.Settings

open Text

inductive Strictness where
  | strictStubs | lenient | warn
  deriving DecidableEq

namespace Strictness

def all : List Strictness := [strictStubs, lenient, warn]

def constant : Strictness → String
  | strictStubs => "STRICT_STUBS"
  | lenient => "LENIENT"
  | warn => "WARN"

def ofConstant? (text : String) : Option Strictness := all.find? fun s => s.constant == text

end Strictness

structure Attributes where
  name : Option String := none
  answer : Option String := none
  extraInterfaces : List String := []
  serializable : Bool := false
  serializableMode : Option String := none
  stubOnly : Bool := false
  lenient : Bool := false
  strictness : Option Strictness := none
  mockMaker : Option String := none
  deriving DecidableEq

inductive BuilderCall where
  | lenient
  | name (text : String)
  | strictness (strictness : Strictness)
  | mockMaker (text : String)
  | defaultAnswer (text : String)
  | serializable (mode : Option String)
  | stubOnly
  | extraInterfaces (types : List String)
  deriving DecidableEq

namespace BuilderCall

def method : BuilderCall → String
  | lenient => "lenient"
  | name _ => "name"
  | strictness _ => "strictness"
  | mockMaker _ => "mockMaker"
  | defaultAnswer _ => "defaultAnswer"
  | serializable _ => "serializable"
  | stubOnly => "stubOnly"
  | extraInterfaces _ => "extraInterfaces"

def arguments : BuilderCall → String
  | lenient | stubOnly | serializable none => ""
  | name text | mockMaker text | defaultAnswer text | serializable (some text) => text
  | strictness s => "Strictness." ++ s.constant
  | extraInterfaces types => ", ".intercalate types

def spell (call : BuilderCall) : String := "." ++ call.method ++ "(" ++ call.arguments ++ ")"

end BuilderCall

/-- Whether a text names nothing: quotes and blanks only. -/
def isBlankName (text : String) : Bool := allBlank (text.toList.filter (· != '\x22'))

def isDefaultAnswer (text : String) : Bool := trim (simpleName text) == "RETURNS_DEFAULTS"

def givenName (text : String) : Option String := if isBlankName text then none else some text

def givenAnswer (text : String) : Option String := if isDefaultAnswer text then none else some text

namespace Attributes

def isDefault (a : Attributes) : Bool := a == {}

def apply (a : Attributes) : BuilderCall → Attributes
  | .lenient => { a with lenient := true }
  | .name text => { a with name := givenName text }
  | .strictness s => { a with strictness := some s }
  | .mockMaker text => { a with mockMaker := some text }
  | .defaultAnswer text => { a with answer := givenAnswer text }
  | .serializable mode => { a with serializable := true, serializableMode := mode }
  | .stubOnly => { a with stubOnly := true }
  | .extraInterfaces types => { a with extraInterfaces := types }

/-- The settings after some calls; of two calls of one method the later counts. -/
def ofBuilderCalls (calls : List BuilderCall) : Attributes := calls.foldl apply {}

/-- The calls that give the settings, in a fixed order and without those that would change nothing. -/
def toBuilderCalls (a : Attributes) : List BuilderCall :=
  (if a.lenient then [.lenient] else []) ++
  (a.name.map BuilderCall.name).toList ++
  (a.strictness.map BuilderCall.strictness).toList ++
  (a.mockMaker.map BuilderCall.mockMaker).toList ++
  (a.answer.map BuilderCall.defaultAnswer).toList ++
  (if a.serializable then [.serializable a.serializableMode] else []) ++
  (if a.stubOnly then [.stubOnly] else []) ++
  (if a.extraInterfaces.isEmpty then [] else [.extraInterfaces a.extraInterfaces])

end Attributes

end MockDialect.Settings
