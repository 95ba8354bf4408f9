namespace MockDialect.Java

def reservedWords : List String :=
  ["abstract", "assert", "boolean", "break", "byte", "case", "catch", "char", "class", "const",
   "continue", "default", "do", "double", "else", "enum", "extends", "final", "finally", "float",
   "for", "goto", "if", "implements", "import", "instanceof", "int", "interface", "long", "native",
   "new", "package", "private", "protected", "public", "return", "short", "static", "strictfp",
   "super", "switch", "synchronized", "this", "throw", "throws", "transient", "try", "void",
   "volatile", "while", "true", "false", "null"]

def isReserved (word : String) : Bool := reservedWords.contains word

inductive NameError where
  | notIdentifier (name : String)
  | keyword (name : String)

def NameError.message : NameError → String
  | notIdentifier name => "'" ++ name ++ "' is not a valid Java identifier"
  | keyword name => "'" ++ name ++ "' is a reserved Java keyword"

def isAsciiNameStart (c : Char) : Bool := c.isAlpha || c == '_' || c == '$'

def isAsciiNameRest (c : Char) : Bool := c.isAlphanum || c == '_' || c == '$'

/-- Whether a text has the form of a name; only ASCII names are let through. -/
def isAsciiName (name : String) : Bool :=
  match name.toList with
  | [] => false
  | c :: cs => isAsciiNameStart c && cs.all isAsciiNameRest

def checkVariableName (name : String) : Except NameError Unit :=
  if !isAsciiName name then .error (.notIdentifier name)
  else if isReserved name || name == "var" then .error (.keyword name)
  else .ok ()

end MockDialect.Java
