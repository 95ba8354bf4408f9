import MockDialect.Source.Variable

namespace MockDialect.Source

open Api Java Text

/-- What an expression is read against. -/
structure Names where
  text : List Char
  imports : Imports
  declared : List Variable

namespace Names

def spell (names : Names) (n : Node) : String := slice names.text n.span

def isPath (n : Node) : Bool :=
  match n.kind with
  | .identifier | .fieldAccess | .scopedIdentifier => true
  | _ => false

def entryClass? (names : Names) (n : Node) : Option EntryClass :=
  if isPath n then names.imports.entryClass? (names.spell n) else none

/-- A call of a method through an entry class; a class that does not see the method gives no receiver. -/
def throughClass (cls : EntryClass) (method : String) : Receiver :=
  if cls.sees (declaringClass method) then .entry (declaringClass method) else .unknown

def methodName? (names : Names) (children : List Node) : Option String :=
  (children.find? (·.role == some .name)).map names.spell

def ownFieldType? (names : Names) (children : List Node) : Option ApiType :=
  match children.find? (·.role == some .object), children.find? (·.role == some .field) with
  | some object, some field =>
    if object.kind == .thisExpression then
      (Variable.field? names.declared (names.spell field)).bind (·.apiType)
    else none
  | _, _ => none

mutual

def typeOf (names : Names) : Node → Option ApiType
  | .mk kind _ span children =>
    match kind with
    | .methodInvocation =>
      match names.methodName? children with
      | some method => (receiverAmong names method children).result method
      | none => none
    | .identifier =>
      (Variable.lookup? names.declared (slice names.text span) span.start).bind (·.apiType)
    | .fieldAccess => names.ownFieldType? children
    | .parenthesizedExpression => typeOfFirst names children
    | _ => none

def receiverAmong (names : Names) (method : String) : List Node → Receiver
  | [] =>
    match names.imports.staticMember? method with
    | some cls => .entry cls
    | none => .unknown
  | n :: ns =>
    if n.role == some .object then
      match names.entryClass? n with
      | some cls => throughClass cls method
      | none =>
        match typeOf names n with
        | some type => .object type
        | none => .unknown
    else receiverAmong names method ns

def typeOfFirst (names : Names) : List Node → Option ApiType
  | [] => none
  | n :: ns => if n.kind == .token || n.isComment then typeOfFirst names ns else typeOf names n

end

def receiver (names : Names) (call : Node) : Receiver :=
  match names.methodName? call.children with
  | some method => receiverAmong names method call.children
  | none => .unknown

def mockedClass? (names : Names) (value : Node) : Option String :=
  if value.isCall && names.methodName? value.children == some "mockStatic" &&
      names.receiver value == .entry .mockito then
    match (value.child? .arguments).bind (·.codeChildren.head?) with
    | some first => if first.kind == .classLiteral then some (names.spell first) else none
    | none => none
  else none

end Names

end MockDialect.Source
