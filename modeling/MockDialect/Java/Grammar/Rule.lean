import MockDialect.Java.Token

namespace MockDialect.Java

open Text (Span)

/-- The phrases of the language that refer to one another. -/
inductive Phrase where
  | type | typeArguments | annotationMark | modifiers | elementValue
  | expression | binary (level : Nat) | unary | primary | lambda | argumentList
  | arrayInitializer | switchExpression | pattern
  | block | statement | localVariable
  | classBody | memberDeclaration | typeDeclaration | formalParameters
  deriving DecidableEq

inductive Rule where
  | empty
  | token (accept : Token → Bool) (kind : Kind)
  | closeAngle
  | seq (first second : Rule)
  | alt (first second : Rule)
  | many (item : Rule)
  | node (kind : Kind) (content : Rule)
  | role (role : Role) (content : Rule)
  | grow (operand suffix : Rule)
  | ahead (rule : Rule)
  | absent (rule : Rule)
  | choose (select : String → Rule)
  | phrase (p : Phrase)

def Kind.operandRole : Kind → Option Role
  | .methodInvocation | .fieldAccess => some .object
  | _ => none

namespace Node

def spanOf (first : Node) (rest : List Node) : Span :=
  ⟨first.span.start, ((first :: rest).getLast?.getD first).span.stop⟩

/-- Close a node around some nodes; comments at their head stay outside. -/
def close? (kind : Kind) (nodes : List Node) : Option (List Node) :=
  match nodes.dropWhile isComment with
  | [] => none
  | n :: ns => some (nodes.takeWhile isComment ++ [mk kind none (spanOf n ns) (n :: ns)])

def withRoleIfCode (r : Role) (n : Node) : Node := if n.isComment then n else n.withRole r

/-- Put an operand in front of the children of a suffix; the comments between them go inside. -/
def adopt? (operand suffix : List Node) : Option (List Node) :=
  match operand.dropWhile isComment, suffix.dropWhile isComment with
  | [left], [mk kind _ span children] =>
    let left := match kind.operandRole with
      | some r => left.withRole r
      | none => left
    some (operand.takeWhile isComment ++
      [mk kind none ⟨left.span.start, span.stop⟩ (left :: suffix.takeWhile isComment ++ children)])
  | _, _ => none

end Node

namespace Token

def closeAngle? : List Token → Option (List Node × List Token)
  | [] => none
  | t :: rest =>
    match t.lexeme, t.text.toList with
    | .symbol, ['>'] => some (t.comments ++ [.leaf .token t.span], rest)
    | .symbol, '>' :: cs =>
      some (t.comments ++ [.leaf .token ⟨t.span.start, t.span.start + 1⟩],
        { t with comments := [], text := String.ofList cs, span := ⟨t.span.start + 1, t.span.stop⟩ } :: rest)
    | _, _ => none

end Token

namespace Rule

mutual

/-- Read a rule. The fuel bounds the depth of the reading, which is at most a constant times the number
of tokens for a grammar that reads a token before it comes back to the same phrase. -/
def run (grammar : Phrase → Rule) : Nat → Rule → List Token → Option (List Node × List Token)
  | 0, _, _ => none
  | n + 1, rule, ts =>
    match rule with
    | empty => some ([], ts)
    | token accept kind =>
      match ts with
      | t :: rest => if accept t then some (t.comments ++ [.leaf kind t.span], rest) else none
      | [] => none
    | closeAngle => Token.closeAngle? ts
    | seq a b =>
      match run grammar n a ts with
      | none => none
      | some (xs, ts) =>
        match run grammar n b ts with
        | none => none
        | some (ys, ts) => some (xs ++ ys, ts)
    | alt a b =>
      match run grammar n a ts with
      | some found => some found
      | none => run grammar n b ts
    | many item =>
      match run grammar n item ts with
      | none => some ([], ts)
      | some (xs, ts) =>
        match run grammar n (many item) ts with
        | none => none
        | some (ys, ts) => some (xs ++ ys, ts)
    | node kind content =>
      match run grammar n content ts with
      | none => none
      | some (xs, ts) => (Node.close? kind xs).map (·, ts)
    | role r content =>
      match run grammar n content ts with
      | none => none
      | some (xs, ts) => some (xs.map (Node.withRoleIfCode r), ts)
    | grow operand suffix =>
      match run grammar n operand ts with
      | none => none
      | some (xs, ts) => some (runSuffixes grammar n suffix xs ts)
    | ahead rule => (run grammar n rule ts).map fun _ => ([], ts)
    | absent rule => if (run grammar n rule ts).isNone then some ([], ts) else none
    | choose select => run grammar n (select (Token.headText ts)) ts
    | phrase p => run grammar n (grammar p) ts

def runSuffixes (grammar : Phrase → Rule) :
    Nat → Rule → List Node → List Token → List Node × List Token
  | 0, _, operand, ts => (operand, ts)
  | n + 1, suffix, operand, ts =>
    match run grammar n suffix ts with
    | none => (operand, ts)
    | some (xs, rest) =>
      match Node.adopt? operand xs with
      | none => (operand, ts)
      | some grown => runSuffixes grammar n suffix grown rest

end

def all : List Rule → Rule
  | [] => empty
  | [r] => r
  | r :: rs => seq r (all rs)

def any : List Rule → Rule
  | [] => absent empty
  | [r] => r
  | r :: rs => alt r (any rs)

def optional (r : Rule) : Rule := alt r empty

def oneOrMore (r : Rule) : Rule := seq r (many r)

def separated (separator item : Rule) : Rule := seq item (many (seq separator item))

def word (text : String) : Rule := token (·.isText text) .token

def oneOf (texts : List String) : Rule := token (fun t => texts.any t.isText) .token

def commaSeparated (item : Rule) : Rule := optional (separated (word ",") item)

def literal (lexeme : Lexeme) (kind : Kind) : Rule := token (·.lexeme == lexeme) kind

def keyword (text : String) (kind : Kind) : Rule := token (·.isText text) kind

def identifier : Rule := token Token.isName .identifier

def typeIdentifier : Rule := token Token.isName .typeIdentifier

end Rule

end MockDialect.Java
