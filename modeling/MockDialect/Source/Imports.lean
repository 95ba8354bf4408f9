import MockDialect.Api.EntryClass
import MockDialect.Java.Node
import MockDialect.Text.Blank
import MockDialect.Text.Dotted
import MockDialect.Text.Offset

namespace MockDialect.Source

open Api Java Text

structure Imports where
  single : List String := []
  onDemand : List String := []
  staticSingle : List (String × String) := []
  staticOnDemand : List String := []
  lastImportEnd : Option Nat := none
  packageEnd : Option Nat := none

namespace Imports

def importBody (text : List Char) : List Char :=
  let text := trimChars text
  let text := (dropLead? "import".toList text).getD text
  trimChars (text.reverse.dropWhile (· == ';')).reverse

def importedName (text : List Char) : Bool × List Char :=
  let body := importBody text
  let squeezed (cs : List Char) := cs.filter (!isBlank ·)
  match dropLead? "static".toList body with
  | some (c :: cs) => if isBlank c then (true, squeezed cs) else (false, squeezed body)
  | _ => (false, squeezed body)

def starred? (name : List Char) : Option String :=
  match name.reverse with
  | '*' :: '.' :: rest => some (String.ofList rest.reverse)
  | _ => none

def add (imports : Imports) (text : List Char) : Imports :=
  let (isStatic, name) := importedName text
  match isStatic, starred? name with
  | false, some package => { imports with onDemand := imports.onDemand ++ [package] }
  | false, none => { imports with single := imports.single ++ [String.ofList name] }
  | true, some cls => { imports with staticOnDemand := imports.staticOnDemand ++ [cls] }
  | true, none =>
    match splitLast? '.' name with
    | some (cls, member) =>
      { imports with staticSingle := imports.staticSingle ++ [(String.ofList cls, String.ofList member)] }
    | none => imports

def addNode (text : List Char) (imports : Imports) (n : Node) : Imports :=
  match n.kind with
  | .packageDeclaration => { imports with packageEnd := some n.span.stop }
  | .importDeclaration =>
    { imports.add ((slice? text n.span).getD []) with lastImportEnd := some n.span.stop }
  | _ => imports

def ofTree (text : List Char) (root : Node) : Imports := root.codeChildren.foldl (addNode text) {}

def resolves (imports : Imports) (spelling qualified : String) : Bool :=
  spelling == qualified ||
    (spelling == simpleName qualified &&
      (imports.single.contains qualified || imports.onDemand.contains (packageName qualified)))

def importable (imports : Imports) (qualified : String) : Bool :=
  imports.resolves (simpleName qualified) qualified

def entryClass? (imports : Imports) (spelling : String) : Option EntryClass :=
  EntryClass.all.find? fun cls => imports.resolves spelling cls.qualifiedName

/-- Whether a static import of a class makes a method visible, given where the method is declared. -/
def makesVisible (declaring : EntryClass) (cls : String) : Bool :=
  EntryClass.all.any fun c => c.qualifiedName == cls && c.sees declaring

/-- The class that declares a method called without a qualifier. -/
def staticMember? (imports : Imports) (method : String) : Option EntryClass :=
  let declaring := declaringClass method
  if imports.staticSingle.any (fun (cls, member) => member == method && makesVisible declaring cls) ||
      imports.staticOnDemand.any (makesVisible declaring) then some declaring
  else none

end Imports

end MockDialect.Source
