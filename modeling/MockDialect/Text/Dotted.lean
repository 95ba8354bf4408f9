namespace MockDialect.Text

def splitLast? (mark : Char) : List Char → Option (List Char × List Char)
  | [] => none
  | c :: cs =>
    match splitLast? mark cs with
    | some (before, after) => some (c :: before, after)
    | none => if c = mark then some ([], cs) else none

def simpleName (name : String) : String :=
  match splitLast? '.' name.toList with
  | some (_, after) => String.ofList after
  | none => name

/-- What stands before the last dot; empty for a name without dots. -/
def packageName (name : String) : String :=
  match splitLast? '.' name.toList with
  | some (before, _) => String.ofList before
  | none => ""

def dropLead? (lead text : List Char) : Option (List Char) :=
  if lead.isPrefixOf text then some (text.drop lead.length) else none

def startsWith (text lead : String) : Bool := lead.toList.isPrefixOf text.toList

def withoutThis (reference : String) : String :=
  match dropLead? "this.".toList reference.toList with
  | some rest => String.ofList rest
  | none => reference

def upTo (mark : Char) (text : String) : String :=
  String.ofList (text.toList.takeWhile (· ≠ mark))

end MockDialect.Text
