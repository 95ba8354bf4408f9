import MockDialect.Conversion.Declaration
import MockDialect.Creation.CreationCall
import MockDialect.Creation.Layout
import MockDialect.Text.Lowercase

namespace MockDialect.Creation

open Chain Conversion Edit Java Settings Source Text

structure LocalVariable where
  name : String
  type : String
  span : Span

def localVariable? (f : File) (value : Cursor) : Option LocalVariable := do
  let declarator ← value.parent?
  let statement ← declarator.parent?
  if declarator.kind == .variableDeclarator && value.node.role == some .value &&
      statement.kind == .localVariableDeclaration &&
      (statement.node.childrenWith .declarator).length == 1 then
    let name ← declarator.node.child? .name
    let type ← statement.node.child? .type
    return ⟨f.spell name, f.spell type, statement.span⟩
  else none

def declaresField (f : File) (body : Node) (name : String) : Bool :=
  f.declared.any fun v => v.kind == .field && v.name == name && v.scope == body.span

structure FieldShape where
  type : String
  marker : String
  initializer : Option String

/-- The type of a spied expression, and the expression where the field has to be given it. An instance
without constructor arguments or a body is made for the field anyway. -/
def spiedShape (call : Call) : Except Failure FieldShape :=
  match call.args with
  | [a] =>
    match a.kind with
    | .classLiteral typeName => .ok ⟨typeName, "@Spy", none⟩
    | .newInstance typeName hasArguments =>
      let anonymous := (trimChars a.text.toList).getLast? == some '\x7d'
      .ok ⟨typeName, "@Spy", if hasArguments || anonymous then some a.text else none⟩
    | _ => .error (.unavailable .noMockCreation)
  | _ => .error (.unavailable .noMockCreation)

def fieldShape (f : File) (c : CreationCall) : Except Failure FieldShape :=
  match c.kind with
  | .mock => do
    let (type, attributes) ← orSetting (ofMockCall f c.place.node)
    return ⟨type, ← orSetting attributes.annotationText, none⟩
  | .spy => spiedShape c.call

def lowerCamel (type : String) : String :=
  match (simpleName (rawType type)).toList with
  | [] => ""
  | c :: cs => String.ofList (lowerChar c ++ cs)

/-- Type and name of the new field, and the edit that takes the call away. A local variable that the call
initializes becomes the field; else the call gives way to a new name. -/
def fieldFor (f : File) (body : Node) (c : CreationCall) (shape : FieldShape) :
    Except Failure (String × String × Edit) :=
  match localVariable? f c.place with
  | some v =>
    if declaresField f body v.name then .error (.unavailable (.fieldNameTaken v.name))
    else .ok (if v.type = "var" then shape.type else v.type, v.name, replace (wholeLines f.text v.span) "")
  | none =>
    let name := freshName f.identifiers (lowerCamel shape.type)
    .ok (shape.type, name, replace c.place.span name)

def planToField (f : File) (selection : Selection) : Except Failure Plan := do
  let some c := creationCall? f selection | throw (.unavailable .noMockCreation)
  let some body := c.place.enclosing? .classBody | throw (.unavailable .noMockCreation)
  let shape ← fieldShape f c
  let (type, name, removal) ← fieldFor f body.node c shape
  let declaration := type ++ " " ++ name ++
    match shape.initializer with
    | some value => " = " ++ value ++ ";"
    | none => ";"
  planOf f.revision
    ([removal, insertField f.text body.node shape.marker declaration] ++
      (planImports f.imports [c.kind.markerClass]).toList)
    ("Mockito." ++ c.kind.method ++ "() → @" ++ c.kind.marker ++ " field '" ++ name ++ "'")

end MockDialect.Creation
