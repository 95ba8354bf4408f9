import MockDialect.Edit.Plan
import MockDialect.Source.File

namespace MockDialect.Conversion

open Edit Source Text

/-- A name that is not taken: the base itself, or else the base with the least free number from two on. The base
is one of the names taken, so behind as many numbers as there are other names the next one is free. -/
def freshName (taken : List String) (base : String) : String :=
  if taken.contains base then
    let tried := List.range' 2 (taken.length - 1)
    base ++ toString ((tried.find? fun n => !taken.contains (base ++ toString n)).getD (taken.length + 1))
  else base

def unique (items : List String) : List String :=
  items.foldl (fun seen item => if seen.contains item then seen else seen ++ [item]) []

def declareInOrder (f : File) (statementStart : Nat) (name : String) (args : List String) : Edit :=
  let start := lineStart f.text statementStart
  let indentation := f.spanText ⟨start, statementStart⟩
  let declaration := "InOrder " ++ name ++ " = Mockito.inOrder(" ++ ", ".intercalate args ++ ");"
  if allBlank indentation.toList then insert start (indentation ++ declaration ++ "\n")
  else insert statementStart (declaration ++ " ")

def planImports (imports : Imports) (qualifiedNames : List String) : Option Edit :=
  match unique (qualifiedNames.filter (!imports.importable ·)) with
  | [] => none
  | missing =>
    let lines := "\n".intercalate (missing.map fun name => "import " ++ name ++ ";")
    match imports.lastImportEnd, imports.packageEnd with
    | some stop, _ => some (insert stop ("\n" ++ lines))
    | none, some stop => some (insert stop ("\n\n" ++ lines))
    | none, none => some (insert 0 (lines ++ "\n\n"))

end MockDialect.Conversion
