import MockDialect.Files.Path

namespace MockDialect.Files

inductive Entry where
  | file (content : List UInt8)
  | directory (entries : List (String × Entry))

namespace Entry

def empty : Entry := directory []

def isFile : Entry → Bool
  | file _ => true
  | directory _ => false

def isDirectory (e : Entry) : Bool := !e.isFile

def entries : Entry → List (String × Entry)
  | file _ => []
  | directory es => es

def child? (e : Entry) (name : String) : Option Entry := e.entries.lookup name

def find? (e : Entry) : List String → Option Entry
  | [] => some e
  | name :: names =>
    match e.child? name with
    | some inner => inner.find? names
    | none => none

def put (e : Entry) (content : Entry) : List String → Entry
  | [] => content
  | name :: names =>
    let inner := ((e.child? name).getD empty).put content names
    directory ((name, inner) :: e.entries.filter fun other => other.1 != name)

end Entry

inductive AccessError where
  | missing
  | notDirectory
  | isDirectory
  deriving DecidableEq

def AccessError.message : AccessError → String
  | missing => "No such file or directory (os error 2)"
  | notDirectory => "Not a directory (os error 20)"
  | isDirectory => "Is a directory (os error 21)"

/-- Where a command runs: all files, and the directory that relative paths start from. -/
structure World where
  root : Entry
  here : List String := []
  userConfig : Option (String × List UInt8) := none

namespace World

/-- Follow names from a place. Every step has to start from a directory; two dots go up, and stay at the
root. -/
def follow (w : World) (place : List String) : List String → Except AccessError (List String)
  | [] => .ok place
  | name :: names =>
    match w.root.find? place with
    | none => .error .missing
    | some (.file _) => .error .notDirectory
    | some (.directory _) => w.follow (if name = ".." then place.dropLast else place ++ [name]) names

/-- Where a path leads, whether or not something is there. -/
def place (w : World) (path : String) : Except AccessError (List String) :=
  if path.isEmpty then .error .missing
  else w.follow (if isAbsolute path then [] else w.here) (parts path)

def wantsDirectory (path : String) : Bool :=
  match (splitSlashes path.toList).getLast? with
  | some last => last == [] || last == ['.']
  | none => false

def locate (w : World) (path : String) : Except AccessError Entry := do
  let place ← w.place path
  match w.root.find? place with
  | none => .error .missing
  | some entry => if entry.isFile && wantsDirectory path then .error .notDirectory else .ok entry

def isDirectory (w : World) (path : String) : Bool :=
  match w.locate path with
  | .ok entry => entry.isDirectory
  | .error _ => false

def isFile (w : World) (path : String) : Bool :=
  match w.locate path with
  | .ok entry => entry.isFile
  | .error _ => false

def read (w : World) (path : String) : Except AccessError (List UInt8) := do
  match ← w.locate path with
  | .file content => .ok content
  | .directory _ => .error .isDirectory

end World

end MockDialect.Files
