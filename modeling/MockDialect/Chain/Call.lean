import MockDialect.Source.File

namespace MockDialect.Chain

open Api Java Source Text

inductive QualifierKind where
  | call
  | reference
  | other
  deriving DecidableEq

/-- What stands before the dot of a call. -/
structure Qualifier where
  text : String
  span : Span
  kind : QualifierKind

mutual

/-- An argument as spelled. -/
structure Arg where
  text : String
  span : Span
  kind : ArgKind
  apiType : Option ApiType

/-- What an argument is. -/
inductive ArgKind where
  | call (call : Call)
  | reference
  | classLiteral (typeName : String)
  | newInstance (typeName : String) (hasArguments : Bool)
  | lambda
  | methodReference
  | stringLiteral
  | booleanLiteral (value : Bool)
  | other

structure Call where
  name : String
  span : Span
  nameSpan : Span
  argsSpan : Span
  argsText : String
  args : List Arg
  qualifier : Option Qualifier
  link : String
  receiver : Receiver

end

namespace Arg

def isClassLiteral (a : Arg) : Bool :=
  match a.kind with
  | .classLiteral _ => true
  | _ => false

def isReference (a : Arg) : Bool :=
  match a.kind with
  | .reference => true
  | _ => false

def isFunctional (a : Arg) : Bool :=
  match a.kind with
  | .lambda | .methodReference => true
  | _ => false

def isStringLiteral (a : Arg) : Bool :=
  match a.kind with
  | .stringLiteral => true
  | _ => false

def call? (a : Arg) : Option Call :=
  match a.kind with
  | .call c => some c
  | _ => none

end Arg

namespace Call

/-- The call without its qualifier, as in `.call(1)`. -/
def tail (c : Call) : String := c.link ++ c.name ++ c.argsText

def qualifierText? (c : Call) : Option String := c.qualifier.map (·.text)

def argText? (c : Call) (index : Nat) : Option String := c.args[index]?.map (·.text)

end Call

def classLiteralType (text : String) : String :=
  match dropLead? "class".toList.reverse (trimChars text.toList).reverse with
  | some rest =>
    let rest := (rest.dropWhile isBlank).dropWhile (· == '.')
    String.ofList (rest.dropWhile isBlank).reverse
  | none => text

def qualifierOf (f : File) (object : Node) : Qualifier where
  text := f.spell object
  span := object.span
  kind := match object.kind with
    | .methodInvocation => .call
    | .identifier | .fieldAccess | .scopedIdentifier => .reference
    | _ => .other

def callFrom? (f : File) (n : Node) (args : List Arg) : Option Call :=
  match n.child? .name, n.child? .arguments with
  | some name, some arguments =>
    let object := n.child? .object
    some {
      name := f.spell name
      span := n.span
      nameSpan := name.span
      argsSpan := arguments.span
      argsText := f.spell arguments
      args := args
      qualifier := object.map (qualifierOf f)
      link := match object with
        | some o => f.spanText ⟨o.span.stop, name.span.start⟩
        | none => ""
      receiver := f.names.receiver n }
  | _, _ => none

def plainKind (f : File) (n : Node) : ArgKind :=
  match n.kind with
  | .identifier | .fieldAccess => .reference
  | .classLiteral => .classLiteral (classLiteralType (f.spell n))
  | .objectCreation =>
    .newInstance (((n.child? .type).map f.spell).getD "")
      ((n.child? .arguments).any fun list => !list.codeChildren.isEmpty)
  | .lambdaExpression => .lambda
  | .methodReference => .methodReference
  | .stringLiteral => .stringLiteral
  | .trueLiteral => .booleanLiteral true
  | .falseLiteral => .booleanLiteral false
  | _ => .other

mutual

def readArg (f : File) : Node → Arg
  | .mk kind role span children =>
    let n := Node.mk kind role span children
    { text := f.spell n
      span := span
      kind := if kind == .methodInvocation then
          match callFrom? f n (readArgsAmong f children) with
          | some call => .call call
          | none => .other
        else plainKind f n
      apiType := f.names.typeOf n }

def readArgsAmong (f : File) : List Node → List Arg
  | [] => []
  | .mk _ role _ children :: ns =>
    if role == some .arguments then readArgs f children else readArgsAmong f ns

def readArgs (f : File) : List Node → List Arg
  | [] => []
  | n :: ns => if n.kind == .token || n.isComment then readArgs f ns else readArg f n :: readArgs f ns

end

def readCall? (f : File) (n : Node) : Option Call :=
  if n.isCall then callFrom? f n (readArgsAmong f n.children) else none

end MockDialect.Chain
