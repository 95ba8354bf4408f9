import MockDialect.Text.Dotted

namespace MockDialect.Files

open Text

/-- A path without the marker that lifts the length limit of device paths. -/
def withoutLongMarker (path : String) : String :=
  match dropLead? ['\\', '\\', '?', '\\'] path.toList with
  | some rest => String.ofList rest
  | none => path

def splitSlashes : List Char → List (List Char)
  | [] => [[]]
  | '/' :: rest => [] :: splitSlashes rest
  | c :: rest =>
    match splitSlashes rest with
    | piece :: pieces => (c :: piece) :: pieces
    | [] => [[c]]

def parts (path : String) : List String :=
  ((splitSlashes path.toList).map String.ofList).filter fun part => part != "" && part != "."

def isAbsolute (path : String) : Bool := path.toList.head? == some '/'

def endsInSlash (path : String) : Bool := path.toList.getLast? == some '/'

/-- A reversed path without slashes and single dots at its end; the root stays. -/
def dropTail : List Char → List Char
  | ['/'] => ['/']
  | '/' :: rest => dropTail rest
  | '.' :: '/' :: rest => dropTail ('/' :: rest)
  | path => path

def parent? (path : String) : Option String :=
  match dropTail path.toList.reverse with
  | [] => none
  | ['/'] => none
  | reversed => some (String.ofList (dropTail (reversed.dropWhile (· != '/'))).reverse)

def ancestorsWithin : Nat → String → List String
  | 0, path => [path]
  | n + 1, path =>
    match parent? path with
    | some above => path :: ancestorsWithin n above
    | none => [path]

def ancestors (path : String) : List String := ancestorsWithin path.length path

def join (directory name : String) : String :=
  if directory.isEmpty then name
  else if endsInSlash directory then directory ++ name
  else directory ++ "/" ++ name

def extension? (name : String) : Option String :=
  match splitLast? '.' name.toList with
  | some ([], _) => none
  | some (_, rest) => some (String.ofList rest)
  | none => none

end MockDialect.Files
