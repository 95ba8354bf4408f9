import MockDialect.Command.Run

namespace MockDialect.Main

open Command Files

def usage : String :=
  "Usage: <COMMAND> [OPTIONS]\n\n" ++
  "Commands: classify, targets, convert, merge-throws, throw-args, settings, to-field, to-call,\n" ++
  "          expand-mock, check\n\n" ++
  "Lines are 1-based; --line L --end-line E selects every statement in between.\n"

def absolute (names : List String) : String := "/" ++ "/".intercalate names

/-- What is at a place: a directory without its entries, or a file with its content if that is wanted. -/
def lookAt (names : List String) (withContent : Bool) : IO (Option Entry) := do
  let path := System.mkFilePath [absolute names]
  if ← path.isDir then return some .empty
  if !(← path.pathExists) then return none
  if !withContent then return some (.file [])
  return some (.file (← IO.FS.readBinFile path).toList)

/-- The picture with what is at a place, unless it has something there. -/
def addPlace (root : Entry) (names : List String) (withContent : Bool) : IO Entry := do
  if (root.find? names).isSome then return root
  match ← lookAt names withContent with
  | some entry => return root.put entry names
  | none => return root

def addPath (here : List String) (root : Entry) (path : String) : IO Entry := do
  let mut place := if isAbsolute path then [] else here
  let mut root := root
  for name in parts path do
    place := if name = ".." then place.dropLast else place ++ [name]
    root ← addPlace root place true
  return root

def ruleFiles : List (List String) := [[".ignore"], [".gitignore"], [".git"], [".git", "info", "exclude"]]

partial def addTree (extension : String) (root : Entry) (names : List String) : IO Entry := do
  let mut root ← ruleFiles.foldlM (fun root file => addPlace root (names ++ file) true) root
  for entry in ← (System.mkFilePath [absolute names]).readDir do
    let place := names ++ [entry.fileName]
    root ← addPlace root place (hasExtension entry.fileName extension)
    if entry.fileName != ".git" && (← entry.path.isDir) then root ← addTree extension root place
  return root

def startingFrom (here : List String) (start : String) (config : Option String) : IO Entry := do
  let root ← (start :: config.toList).foldlM (addPath here) (Entry.empty.put .empty here)
  (Config.candidates { root, here } start).foldlM (addPath here) root

def picture (here : List String) : Invocation → IO Entry
  | .settings _ => return .empty
  | .check request => do
    let root ← startingFrom here request.directory request.config
    match ({ root, here } : World).place request.directory with
    | .error _ => return root
    | .ok place =>
      let above := (List.range place.length).map place.take
      let root ← above.foldlM (fun root names =>
        ruleFiles.foldlM (fun root file => addPlace root (names ++ file) true) root) root
      if ({ root, here } : World).isDirectory request.directory then addTree request.extension root place
      else return root
  | .classify place => startingFrom here place.file place.config
  | .targets place _ => startingFrom here place.file place.config
  | .convert place _ _ _ => startingFrom here place.file place.config
  | .mergeThrows place _ _ => startingFrom here place.file place.config
  | .throwArgs place _ => startingFrom here place.file place.config
  | .toField place _ => startingFrom here place.file place.config
  | .toCall place _ _ => startingFrom here place.file place.config
  | .expandMock place _ => startingFrom here place.file place.config

def userConfig : IO (Option (String × List UInt8)) := do
  let base := match ← IO.getEnv "XDG_CONFIG_HOME", ← IO.getEnv "HOME" with
    | some directory, home => if isAbsolute directory then some directory else home.map (join · ".config")
    | none, home => home.map (join · ".config")
  match base with
  | none => return none
  | some base =>
    let path := join (join base "mockchain") "config.json"
    match ← lookAt (parts path) true with
    | some (.file content) => return some (path, content)
    | _ => return none

def execute (invocation : Invocation) : IO UInt32 := do
  let here := parts (← IO.currentDir).toString
  let root ← picture here invocation
  let result := Result.ofExcept (invocation.run { root, here, userConfig := ← userConfig })
  if let some (path, text) := result.written then IO.FS.writeFile path text
  IO.print result.output
  IO.eprint (result.sideText {})
  return result.exitCode.toUInt32

end MockDialect.Main

def main (arguments : List String) : IO UInt32 := do
  match MockDialect.Command.Invocation.parse arguments with
  | .error .misuse =>
    IO.eprint MockDialect.Main.usage
    return 2
  | .error .help =>
    IO.print MockDialect.Main.usage
    return 0
  | .ok invocation => MockDialect.Main.execute invocation
