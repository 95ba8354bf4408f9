import MockDialect.Java.Cursor
import MockDialect.Source.Typing

namespace MockDialect.Source

open Api Java Text

namespace Names

def declared? (names : Names) (kind : VariableKind) (declaredType : String) (scope : Span) (holder : Node) :
    Option Variable :=
  match holder.child? .name with
  | none => none
  | some name =>
    let value := holder.child? .value
    let apiType := match declaredApiType? names.imports declaredType with
      | some type => some type
      | none => if declaredType == "var" then value.bind names.typeOf else none
    some {
      name := names.spell name
      kind := kind
      declaredType := declaredType
      apiType := apiType
      mockedClass := value.bind names.mockedClass?
      initializer := value.map (·.span)
      scope := scope
      declaredAt := name.span.start }

def typeText (names : Names) (n : Node) : String := ((n.child? .type).map names.spell).getD ""

def parentSpan (c : Cursor) : Span := (c.parent?.map (·.span)).getD c.span

def grandparentSpan (c : Cursor) : Span := ((c.parent?.bind (·.parent?)).map (·.span)).getD c.span

/-- The variables declared by the node at a place. Local variables and fields live in the parent of
their declaration; a parameter lives in the whole method or lambda expression, a resource in the whole
try statement. -/
def declaredAt (names : Names) (c : Cursor) : List Variable :=
  match c.kind with
  | .localVariableDeclaration =>
    (c.node.childrenWith .declarator).filterMap
      (names.declared? .local (names.typeText c.node) (parentSpan c))
  | .fieldDeclaration =>
    (c.node.childrenWith .declarator).filterMap
      (names.declared? .field (names.typeText c.node) (parentSpan c))
  | .formalParameter =>
    (names.declared? .parameter (names.typeText c.node) (grandparentSpan c) c.node).toList
  | .resource =>
    match c.node.child? .type with
    | some type => (names.declared? .resource (names.spell type) (grandparentSpan c) c.node).toList
    | none => []
  | _ => []

end Names

def declaredVariables (text : List Char) (imports : Imports) (tree : Node) : List Variable :=
  (Cursor.all tree).flatMap (Names.declaredAt ⟨text, imports, []⟩)

end MockDialect.Source
