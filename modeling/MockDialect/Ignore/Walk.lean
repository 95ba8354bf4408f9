import MockDialect.Files.Tree
import MockDialect.Ignore.Rule

namespace MockDialect.Ignore

open Files

structure Level where
  place : List String
  search : List Rule
  tracked : List Rule
  excluded : List Rule
  repository : Bool

def rulesAt (directory : Entry) (path : List String) : List Rule :=
  match directory.find? path with
  | some (.file content) => rulesOf content
  | _ => []

/-- The rules of a directory; those for version control count only where they are asked for. -/
def levelOf (versionControl : Bool) (place : List String) (directory : Entry) : Level where
  place := place
  search := rulesAt directory [".ignore"]
  tracked := if versionControl then rulesAt directory [".gitignore"] else []
  excluded := if versionControl then rulesAt directory [".git", "info", "exclude"] else []
  repository := versionControl && (directory.child? ".git").isSome

def upToRepository : List Level → List Level
  | [] => []
  | level :: outer => if level.repository then [level] else level :: upToRepository outer

def firstVerdict (levels : List Level) (kind : Level → List Rule) (path : List String) (directory : Bool) :
    Verdict :=
  levels.foldl (fun verdict level =>
    verdict.orElse (verdictOf (kind level) (path.drop level.place.length) directory)) .silent

/-- What the levels around a path say about it. Rules for every search go first; those for version control
count inside a repository only, and none from outside of it. -/
def verdictAt (levels : List Level) (path : List String) (directory : Bool) : Verdict :=
  let search := firstVerdict levels Level.search path directory
  if levels.any Level.repository then
    let inside := upToRepository levels
    (search.orElse (firstVerdict inside Level.tracked path directory)).orElse
      (firstVerdict inside Level.excluded path directory)
  else search

def isHidden (name : String) : Bool := name.toList.head? == some '.'

def isSkipped (levels : List Level) (place : List String) (name : String) (directory : Bool) : Bool :=
  match verdictAt levels (place ++ [name]) directory with
  | .ignored => true
  | .kept => false
  | .silent => isHidden name

mutual

def filesOf (versionControl : Bool) (levels : List Level) (place : List String) (below : List String) :
    Entry → List (List String × List UInt8)
  | .file content => [(below, content)]
  | .directory entries =>
    filesAmong versionControl (levelOf versionControl place (.directory entries) :: levels) place below
      entries

def filesAmong (versionControl : Bool) (levels : List Level) (place : List String) (below : List String) :
    List (String × Entry) → List (List String × List UInt8)
  | [] => []
  | (name, entry) :: rest =>
    (if isSkipped levels place name entry.isDirectory then []
      else filesOf versionControl levels (place ++ [name]) (below ++ [name]) entry) ++
      filesAmong versionControl levels place below rest

end

def levelsAbove (versionControl : Bool) (root : Entry) (place : List String) : List Level :=
  ((List.range place.length).reverse).filterMap fun n =>
    (root.find? (place.take n)).map (levelOf versionControl (place.take n))

def walk (versionControl : Bool) (w : World) (directory : String) : List (List String × List UInt8) :=
  match w.place directory with
  | .error _ => []
  | .ok place =>
    match w.root.find? place with
    | none => []
    | some entry => filesOf versionControl (levelsAbove versionControl w.root place) place [] entry

end MockDialect.Ignore
