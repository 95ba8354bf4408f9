import MockDialect.Java.Grammar.Types

namespace MockDialect.Java.Grammar

open Rule

def argumentListRule : Rule :=
  node .argumentList (all [word "(", commaSeparated expression, word ")"])

def arguments : Rule := role .arguments (phrase .argumentList)

def inferredParameters : Rule :=
  node .inferredParameters (all [word "(", separated (word ",") identifier, word ")"])

def lambdaRule : Rule :=
  node .lambdaExpression (all [
    choose fun
      | "(" => alt (all [inferredParameters, ahead (word "->")]) (phrase .formalParameters)
      | _ => identifier,
    word "->",
    choose fun
      | "\x7b" => phrase .block
      | _ => expression])

/-- `X.class`, `int[].class`; type arguments are let through, although they have no meaning there. -/
def classLiteral : Rule := node .classLiteral (all [plainType, word ".", word "class"])

def referenceTarget : Rule := all [word "::", optional typeArguments, alt (word "new") identifier]

/-- A method reference on a type that cannot be read as an expression: `List<String>::size`, `int[]::new`. -/
def typeReference : Rule :=
  node .methodReference (all [absent (all [qualifiedName, word "::"]), plainType, referenceTarget])

def anonymousBody : Rule := optional (phrase .classBody)

/-- What follows a primary expression or nothing in front of `new`. -/
def creation : Rule :=
  all [word "new", optional typeArguments, annotations, role .type simpleType, arguments, anonymousBody]

def dimensionExpression : Rule :=
  node .dimensionExpression (all [annotations, word "[", expression, word "]"])

def arrayCreation : Rule :=
  node .arrayCreation (all [word "new", annotations, role .type simpleType,
    alt (all [dimensions, role .value (phrase .arrayInitializer)])
      (all [oneOrMore dimensionExpression, optional dimensions])])

def arrayInitializerRule : Rule :=
  node .arrayInitializer (all [word "\x7b",
    commaSeparated (choose fun
      | "\x7b" => phrase .arrayInitializer
      | _ => expression),
    optional (word ","), word "\x7d"])

def parenthesized : Rule := node .parenthesizedExpression (all [word "(", expression, word ")"])

/-- A call without a qualifier. -/
def plainCall : Rule := node .methodInvocation (all [role .name identifier, arguments])

def operand : Rule :=
  choose fun
    | "(" => parenthesized
    | "this" => keyword "this" .thisExpression
    | "super" => keyword "super" .superExpression
    | "true" => keyword "true" .trueLiteral
    | "false" => keyword "false" .falseLiteral
    | "null" => keyword "null" .nullLiteral
    | "new" => alt (node .objectCreation creation) arrayCreation
    | "switch" => phrase .switchExpression
    | "" => any [literal .string .stringLiteral, literal .number .numberLiteral,
        literal .character .characterLiteral]
    | _ => any [plainCall, all [identifier, absent (oneOf [".", "<", "["])], classLiteral,
        typeReference, identifier]

def suffix : Rule :=
  choose fun
    | "." => any [
        node .methodInvocation (all [word ".", optional (all [keyword "super" .superExpression, word "."]),
          optional typeArguments, role .name identifier, arguments]),
        node .fieldAccess (all [word ".", optional (all [keyword "super" .superExpression, word "."]),
          role .field (alt identifier (keyword "this" .thisExpression))]),
        node .objectCreation (all [word ".", creation]),
        node .templateExpression (all [word ".", literal .string .stringLiteral])]
    | "[" => node .arrayAccess (all [word "[", expression, word "]"])
    | "::" => node .methodReference referenceTarget
    | _ => absent empty

def primaryRule : Rule := grow operand suffix

def startsOperand : Rule :=
  alt (oneOf ["(", "!", "~", "this", "super", "new", "switch", "true", "false", "null", "void"])
    (token (fun t => t.isName || !(t.lexeme == .word || t.lexeme == .symbol) ||
      primitiveNames.any t.isText) .token)

/-- A cast. In front of a sign or another operator a name in parentheses is an expression, not a type. -/
def cast : Rule :=
  node .castExpression (all [word "(",
    alt (all [primitiveType, word ")"])
      (all [separated (word "&") type, word ")", ahead startsOperand]),
    alt (phrase .lambda) (phrase .unary)])

def updated : Rule := grow (phrase .primary) (node .updateExpression (oneOf ["++", "--"]))

def unaryRule : Rule :=
  choose fun
    | "+" | "-" | "!" | "~" => node .unaryExpression (all [oneOf ["+", "-", "!", "~"], phrase .unary])
    | "++" | "--" => node .updateExpression (all [oneOf ["++", "--"], phrase .unary])
    | "(" => alt cast updated
    | _ => updated

def operators : Nat → List String
  | 0 => ["||"]
  | 1 => ["&&"]
  | 2 => ["|"]
  | 3 => ["^"]
  | 4 => ["&"]
  | 5 => ["==", "!="]
  | 6 => ["<", ">", "<=", ">="]
  | 7 => ["<<", ">>", ">>>"]
  | 8 => ["+", "-"]
  | _ => ["*", "/", "%"]

def instanceTest : Rule :=
  node .instanceofExpression (all [word "instanceof", optional (word "final"),
    alt (phrase .pattern) type])

def binaryRule (level : Nat) : Rule :=
  let tighter := if level < 9 then phrase (.binary (level + 1)) else phrase .unary
  let step := node .binaryExpression (all [oneOf (operators level), tighter])
  grow tighter (if level = 6 then alt step instanceTest else step)

def ternary : Rule :=
  grow (phrase (.binary 0))
    (node .ternaryExpression (all [word "?", expression, word ":", expression]))

def assignmentOperators : List String :=
  ["=", "+=", "-=", "*=", "/=", "&=", "|=", "^=", "%=", "<<=", ">>=", ">>>="]

def assignment : Rule :=
  grow ternary (node .assignmentExpression (all [oneOf assignmentOperators, expression]))

def expressionRule : Rule :=
  choose fun
    | "(" => alt (phrase .lambda) assignment
    | _ => alt (all [ahead (all [identifier, word "->"]), phrase .lambda]) assignment

def recordPattern : Rule :=
  node .recordPattern (all [
    alt (all [identifier, ahead (word "(")]) classType,
    node .recordPatternBody (all [word "(",
      commaSeparated (alt (all [ahead (all [type, word "("]), phrase .pattern])
        (node .recordPatternComponent (all [type, identifier]))),
      word ")"])])

def patternRule : Rule :=
  alt recordPattern (node .typePattern (all [optionalModifiers, type, identifier]))

def guard : Rule := node .guard (all [word "when", expression])

/-- A case constant stops before an arrow, so it is no lambda expression. -/
def switchLabel : Rule :=
  node .switchLabel (alt (word "default")
    (all [word "case", separated (word ",") (any [phrase .pattern, word "default", ternary]),
      optional guard]))

def switchRule : Rule :=
  node .switchRule (all [switchLabel, word "->",
    choose fun
      | "\x7b" => phrase .block
      | "throw" => phrase .statement
      | _ => node .expressionStatement (all [expression, word ";"])])

def switchGroup : Rule :=
  node .switchGroup (all [oneOrMore (all [switchLabel, word ":"]), many (phrase .statement)])

def switchExpressionRule : Rule :=
  node .switchExpression (all [word "switch", parenthesized,
    node .switchBlock (all [word "\x7b",
      alt (all [ahead (all [switchLabel, word "->"]), many switchRule]) (many switchGroup),
      word "\x7d"])])

end MockDialect.Java.Grammar
