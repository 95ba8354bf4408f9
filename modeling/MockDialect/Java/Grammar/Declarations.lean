import MockDialect.Java.Grammar.Statements

namespace MockDialect.Java.Grammar

open Rule

def name : Rule := role .name identifier

def formalParameter : Rule :=
  node .formalParameter (all [optionalModifiers, role .type plainType, variableName])

def spreadParameter : Rule :=
  node .spreadParameter (all [optionalModifiers, plainType, word "...", variableDeclarator])

def receiverParameter : Rule :=
  node .receiverParameter (all [annotations, plainType, many (all [identifier, word "."]),
    keyword "this" .thisExpression])

def formalParametersRule : Rule :=
  node .formalParameters (all [word "(",
    commaSeparated (any [formalParameter, spreadParameter, receiverParameter]), word ")"])

def formalParameters : Rule := phrase .formalParameters

def throws : Rule := node .throws (all [word "throws", separated (word ",") type])

def methodDeclaration : Rule :=
  node .methodDeclaration (all [optionalModifiers,
    optional (all [typeParameters, annotations]), role .type plainType, name, formalParameters,
    optional dimensions, optional throws, alt (role .body block) (word ";")])

def constructorInvocation : Rule :=
  node .constructorInvocation (all [
    alt (all [optional typeArguments,
        alt (keyword "this" .thisExpression) (keyword "super" .superExpression),
        ahead (word "(")])
      (all [phrase .primary, word ".", optional typeArguments, keyword "super" .superExpression]),
    arguments, word ";"])

def constructorDeclaration : Rule :=
  node .constructorDeclaration (all [optionalModifiers, optional typeParameters, name, formalParameters,
    optional throws,
    role .body (node .constructorBody (all [word "\x7b", optional constructorInvocation,
      many statement, word "\x7d"]))])

def compactConstructorDeclaration : Rule :=
  node .compactConstructorDeclaration (all [optionalModifiers, name, role .body block])

def staticInitializer : Rule := node .staticInitializer (all [word "static", block])

def fieldDeclaration : Rule := node .fieldDeclaration variableList

def constantDeclaration : Rule := node .constantDeclaration variableList

def typeList (kind : Kind) (text : String) : Rule :=
  node kind (all [word text, separated (word ",") type])

def superclass : Rule := node .superclass (all [word "extends", type])

def implemented : Rule := optional (typeList .interfaces "implements")

def permitted : Rule := optional (typeList .permits "permits")

def memberRule : Rule :=
  choose fun
    | ";" => word ";"
    | "\x7b" => block
    | _ => any [staticInitializer, phrase .typeDeclaration, constructorDeclaration,
        compactConstructorDeclaration, methodDeclaration, fieldDeclaration]

def classBodyRule : Rule :=
  node .classBody (all [word "\x7b", many (phrase .memberDeclaration), word "\x7d"])

def classBody : Rule := role .body (phrase .classBody)

def interfaceBody : Rule :=
  node .interfaceBody (all [word "\x7b",
    many (any [word ";", phrase .typeDeclaration, methodDeclaration, constantDeclaration]), word "\x7d"])

def enumConstant : Rule :=
  node .enumConstant (all [optionalModifiers, name, optional arguments, optional classBody])

def enumBody : Rule :=
  node .enumBody (all [word "\x7b", commaSeparated enumConstant, optional (word ","),
    optional (node .enumBodyDeclarations (all [word ";", many (phrase .memberDeclaration)])), word "\x7d"])

def annotationElement : Rule :=
  node .annotationElement (all [optionalModifiers, role .type plainType, name, word "(", word ")",
    optional dimensions,
    optional (node .defaultValue (all [word "default", phrase .elementValue])), word ";"])

def annotationTypeBody : Rule :=
  node .annotationTypeBody (all [word "\x7b",
    many (any [word ";", phrase .typeDeclaration, annotationElement, constantDeclaration]), word "\x7d"])

def classDeclaration : Rule :=
  node .classDeclaration (all [optionalModifiers, word "class", name, optional typeParameters,
    optional superclass, implemented, permitted, classBody])

def interfaceDeclaration : Rule :=
  node .interfaceDeclaration (all [optionalModifiers, word "interface", name, optional typeParameters,
    optional (typeList .interfaces "extends"), permitted, role .body interfaceBody])

def enumDeclaration : Rule :=
  node .enumDeclaration (all [optionalModifiers, word "enum", name, implemented, role .body enumBody])

def recordDeclaration : Rule :=
  node .recordDeclaration (all [optionalModifiers, word "record", name, optional typeParameters,
    formalParameters, implemented, classBody])

def annotationTypeDeclaration : Rule :=
  node .annotationTypeDeclaration (all [optionalModifiers, word "@", word "interface", name,
    role .body annotationTypeBody])

/-- A type declaration, told by the word after its modifiers. -/
def typeDeclarationRule : Rule :=
  all [ahead (all [optionalModifiers, oneOf ["class", "interface", "enum", "record", "@"]]),
    any [classDeclaration, interfaceDeclaration, enumDeclaration, recordDeclaration,
      annotationTypeDeclaration]]

def packageDeclaration : Rule :=
  node .packageDeclaration (all [annotations, word "package", qualifiedName, word ";"])

def importDeclaration : Rule :=
  node .importDeclaration (all [word "import", optional (word "static"), qualifiedName,
    optional (all [word ".", keyword "*" .asterisk]), word ";"])

def names : Rule := separated (word ",") qualifiedName

def moduleDirective : Rule :=
  node .moduleDirective (any [
    all [word "requires", many (all [oneOf ["transitive", "static"], absent (oneOf [";", "."])]),
      qualifiedName, word ";"],
    all [oneOf ["exports", "opens"], qualifiedName, optional (all [word "to", names]), word ";"],
    all [word "uses", qualifiedName, word ";"],
    all [word "provides", qualifiedName, word "with", names, word ";"]])

def moduleDeclaration : Rule :=
  node .moduleDeclaration (all [annotations, optional (word "open"), word "module", role .name qualifiedName,
    node .moduleBody (all [word "\x7b", many moduleDirective, word "\x7d"])])

/-- What can stand outside of any type; statements and methods are let in too. -/
def topLevel : Rule :=
  choose fun
    | "import" => importDeclaration
    | "package" => packageDeclaration
    | "@" => any [packageDeclaration, moduleDeclaration, methodDeclaration, statement]
    | "open" | "module" => any [moduleDeclaration, methodDeclaration, statement]
    | _ => alt methodDeclaration statement

def java : Phrase → Rule
  | .type => typeRule
  | .typeArguments => typeArgumentsRule
  | .annotationMark => annotationRule
  | .modifiers => modifiersRule
  | .elementValue => elementValueRule
  | .expression => expressionRule
  | .binary level => binaryRule level
  | .unary => unaryRule
  | .primary => primaryRule
  | .lambda => lambdaRule
  | .argumentList => argumentListRule
  | .arrayInitializer => arrayInitializerRule
  | .switchExpression => switchExpressionRule
  | .pattern => patternRule
  | .block => blockRule
  | .statement => statementRule
  | .localVariable => localVariableRule
  | .classBody => classBodyRule
  | .memberDeclaration => memberRule
  | .typeDeclaration => typeDeclarationRule
  | .formalParameters => formalParametersRule

end MockDialect.Java.Grammar
