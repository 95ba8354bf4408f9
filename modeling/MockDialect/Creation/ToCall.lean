import MockDialect.Conversion.Declaration
import MockDialect.Creation.CreationCall
import MockDialect.Creation.Layout

namespace MockDialect.Creation

open Conversion Edit Java Settings Source

def creationMarker? (f : File) (field : Node) : Option (Node × CreationKind) :=
  match field.childOfKind? .modifiers with
  | none => none
  | some modifiers =>
    let markers := modifiers.codeChildren.filterMap fun m =>
      if m.kind == .annotationCall || m.kind == .annotationMarker then
        ((m.child? .name).bind fun name => CreationKind.ofMarker? (f.spell name)).map fun kind => (m, kind)
      else none
    match markers with
    | [single] => some single
    | _ => none

def methodBody? (f : File) (field : Cursor) (method : String) : Option Node := do
  let body ← field.parent?
  let found ← body.node.codeChildren.find? fun m =>
    m.kind == .methodDeclaration && (m.child? .name).any fun name => f.spell name == method
  found.child? .body

structure MockField where
  place : Cursor
  marker : Node
  kind : CreationKind
  type : String
  name : String
  initializer : Option String

def mockField? (f : File) (offset : Nat) : Option MockField := do
  let field ← (f.placeAt offset).enclosing? .fieldDeclaration
  let (marker, kind) ← creationMarker? f field.node
  match field.node.childrenWith .declarator with
  | [declarator] =>
    let name ← declarator.child? .name
    let type ← field.node.child? .type
    return ⟨field, marker, kind, f.spell type, f.spell name, (declarator.child? .value).map f.spell⟩
  | _ => none

def creationOf (f : File) (field : MockField) : Except Failure (String × List String) :=
  match field.kind with
  | .mock => do
    let attributes ← orSetting (ofAnnotationNode f field.marker)
    return (attributes.creationText (rawType field.type), attributes.requiredImports)
  | .spy =>
    let spied := field.initializer.getD (rawType field.type ++ ".class")
    .ok ("Mockito.spy(" ++ spied ++ ")", [Api.EntryClass.mockito.qualifiedName])

/-- A plan that turns the selected field into a creation call at the head of a method of its class. Uses
of the field in other methods are left as they are. -/
def planToCall (f : File) (selection : Selection) (method : String) : Except Failure Plan := do
  let some field := mockField? f (selectedOffset f selection) | throw (.unavailable .noMockField)
  let (creation, imports) ← creationOf f field
  let some block := methodBody? f field.place method | throw (.unavailable (.noTargetMethod method))
  let removed := withBlankLineAfter f.text (wholeLines f.text field.place.span)
  planOf f.revision
    ([replace removed "",
      insertStatement f.text block (field.type ++ " " ++ field.name ++ " = " ++ creation ++ ";")] ++
      (planImports f.imports imports).toList)
    ("@" ++ field.kind.marker ++ " field '" ++ field.name ++ "' → Mockito." ++ field.kind.method ++
      "() in " ++ method ++ "()")

end MockDialect.Creation
