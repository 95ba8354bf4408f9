import MockDialect.Files.Tree
import MockDialect.Java.Keyword
import MockDialect.Json.Reader
import MockDialect.Recognition.Convention
import MockDialect.Text.Lossy

namespace MockDialect

open Files Json Recognition

structure Config where
  convention : Option Convention := none
  inOrderVariable : String := "inOrder"
  deriving DecidableEq

namespace Config

def policy (c : Config) : Policy := ⟨c.convention⟩

def fileName : String := ".mockchain.json"

inductive ConfigError where
  | unreadable (error : AccessError)
  | malformed (path : String)
  | badName (path : String) (error : Java.NameError)

def exactConvention? (name : String) : Option Convention :=
  [Convention.mockito, Convention.bddMockito].find? fun c => c.name == name

def conventionOf? : Value → Option (Option Convention)
  | .null => some none
  | .string (some name) => (exactConvention? name).map some
  | .object [(some name, .null)] => (exactConvention? name).map some
  | _ => none

def nameOf? : Value → Option String
  | .string name => name
  | _ => none

/-- The value of a key that may be given once; the default if it is absent. -/
def once? {α : Type} (members : List (Option String × Value)) (key : String) (read : Value → Option α)
    (absent : α) : Option α :=
  match members.filter fun member => member.1 == some key with
  | [] => some absent
  | [(_, value)] => read value
  | _ => none

def ofValue? : Value → Option Config
  | .object members => do
    if members.any fun member => member.1.isNone then none
    let convention ← once? members "convention" conventionOf? none
    let inOrderVariable ← once? members "inOrderVariable" nameOf? ({} : Config).inOrderVariable
    return ⟨convention, inOrderVariable⟩
  | .array [] => some {}
  | .array [c] => (conventionOf? c).map fun convention => ⟨convention, ({} : Config).inOrderVariable⟩
  | .array [c, n] => do return ⟨← conventionOf? c, ← nameOf? n⟩
  | _ => none

/-- The configuration in a text; the path only tells where it stood. -/
def ofText (path text : String) : Except ConfigError Config :=
  match (parse? text).bind ofValue? with
  | none => .error (.malformed path)
  | some config =>
    match Java.checkVariableName config.inOrderVariable with
    | .error error => .error (.badName path error)
    | .ok () => .ok config

def ofBytes (path : String) (bytes : List UInt8) : Except ConfigError Config :=
  ofText path (Text.Lossy.read bytes).1

def load (w : World) (path : String) : Except ConfigError Config :=
  match w.read path with
  | .error error => .error (.unreadable error)
  | .ok bytes => ofBytes path bytes

def startOf (w : World) (start : String) : String :=
  if w.isDirectory start then start else (parent? start).getD start

def candidates (w : World) (start : String) : List String :=
  (ancestors (startOf w start)).map fun directory => join directory fileName

/-- The nearest configuration of the project, else that of the user, else the default; with its path. -/
def discover (w : World) (start : String) : Except ConfigError (Config × Option String) :=
  match (candidates w start).find? w.isFile with
  | some path => (load w path).map fun config => (config, some path)
  | none =>
    match w.userConfig with
    | some (path, bytes) => (ofBytes path bytes).map fun config => (config, some path)
    | none => .ok ({}, none)

end Config

end MockDialect
