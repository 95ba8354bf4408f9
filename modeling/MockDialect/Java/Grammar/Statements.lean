import MockDialect.Java.Grammar.Expressions

namespace MockDialect.Java.Grammar

open Rule

def statement : Rule := phrase .statement

def block : Rule := phrase .block

def blockRule : Rule := node .block (all [word "\x7b", many statement, word "\x7d"])

/-- The name of a variable, with the brackets that may follow it. -/
def variableName : Rule := all [role .name identifier, optional dimensions]

def initializer : Rule :=
  choose fun
    | "\x7b" => phrase .arrayInitializer
    | _ => expression

def variableDeclarator : Rule :=
  node .variableDeclarator (all [variableName, optional (all [word "=", role .value initializer])])

/-- Modifiers, a type, variables and a semicolon. -/
def variableList : Rule :=
  all [optionalModifiers, role .type plainType,
    separated (word ",") (role .declarator variableDeclarator), word ";"]

def localVariableRule : Rule := node .localVariableDeclaration variableList

def expressionStatement : Rule := node .expressionStatement (all [expression, word ";"])

def ifStatement : Rule :=
  node .ifStatement (all [word "if", parenthesized, statement, optional (all [word "else", statement])])

def whileStatement : Rule := node .whileStatement (all [word "while", parenthesized, statement])

def doStatement : Rule :=
  node .doStatement (all [word "do", statement, word "while", parenthesized, word ";"])

def enhancedFor : Rule :=
  node .enhancedForStatement (all [word "for", word "(", optionalModifiers, role .type plainType,
    variableName, word ":", role .value expression, word ")", role .body statement])

def basicFor : Rule :=
  node .forStatement (all [word "for", word "(",
    alt (phrase .localVariable) (all [commaSeparated expression, word ";"]),
    optional expression, word ";", commaSeparated expression, word ")", role .body statement])

def synchronizedStatement : Rule :=
  node .synchronizedStatement (all [word "synchronized", parenthesized, role .body block])

def catchClause : Rule :=
  node .catchClause (all [word "catch", word "(",
    node .catchParameter (all [optionalModifiers,
      node .catchType (separated (word "|") plainType), variableName]),
    word ")", role .body block])

def finallyClause : Rule := node .finallyClause (all [word "finally", block])

def resource : Rule :=
  node .resource (alt
    (all [optionalModifiers, role .type plainType, variableName, word "=", role .value expression])
    (phrase .primary))

def resourceSpecification : Rule :=
  node .resourceSpecification (all [word "(", separated (word ";") resource, optional (word ";"), word ")"])

def tryStatement : Rule :=
  alt
    (node .tryWithResourcesStatement (all [word "try", resourceSpecification, role .body block,
      many catchClause, optional finallyClause]))
    (node .tryStatement (all [word "try", role .body block,
      alt (all [oneOrMore catchClause, optional finallyClause]) finallyClause]))

def jump (kind : Kind) (text : String) (operand : Rule) : Rule :=
  node kind (all [word text, operand, word ";"])

def labeledStatement : Rule := node .labeledStatement (all [identifier, word ":", statement])

/-- Whatever starts with a name, a modifier or an operator. -/
def otherStatement : Rule :=
  any [labeledStatement, phrase .typeDeclaration, phrase .localVariable, expressionStatement]

def statementRule : Rule :=
  choose fun
    | "\x7b" => block
    | ";" => word ";"
    | "if" => ifStatement
    | "while" => whileStatement
    | "do" => doStatement
    | "for" => alt enhancedFor basicFor
    | "try" => tryStatement
    | "switch" => alt (all [phrase .switchExpression, absent (word ".")]) expressionStatement
    | "synchronized" => alt synchronizedStatement otherStatement
    | "return" => jump .returnStatement "return" (optional expression)
    | "throw" => jump .throwStatement "throw" expression
    | "break" => jump .breakStatement "break" (optional identifier)
    | "continue" => jump .continueStatement "continue" (optional identifier)
    | "assert" => jump .assertStatement "assert" (all [expression, optional (all [word ":", expression])])
    | "yield" => alt (jump .yieldStatement "yield" expression) otherStatement
    | _ => otherStatement

end MockDialect.Java.Grammar
