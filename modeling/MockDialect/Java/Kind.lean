namespace MockDialect.Java

/-- Kinds of syntax nodes. `token` is punctuation or a keyword that has no meaning of its own. -/
inductive Kind where
  | token
  | lineComment | blockComment
  | program
  -- declarations
  | packageDeclaration | importDeclaration | asterisk
  | moduleDeclaration | moduleBody | moduleDirective
  | classDeclaration | interfaceDeclaration | enumDeclaration | recordDeclaration
  | annotationTypeDeclaration
  | classBody | interfaceBody | enumBody | enumBodyDeclarations | annotationTypeBody
  | enumConstant | annotationElement | defaultValue
  | superclass | interfaces | permits | throws
  | typeParameters | typeParameter | typeBound
  | fieldDeclaration | constantDeclaration | variableDeclarator
  | methodDeclaration | constructorDeclaration | compactConstructorDeclaration
  | constructorBody | constructorInvocation | staticInitializer
  | formalParameters | formalParameter | receiverParameter | spreadParameter | inferredParameters
  | modifiers | annotationCall | annotationMarker | annotationArguments
  | elementValuePair | elementValueArray
  -- types
  | typeIdentifier | scopedTypeIdentifier | genericType | arrayType | annotatedType
  | primitiveType | voidType | typeArguments | wildcard | dimensions
  -- names and expressions
  | identifier | scopedIdentifier
  | numberLiteral | characterLiteral | stringLiteral | trueLiteral | falseLiteral | nullLiteral
  | thisExpression | superExpression
  | parenthesizedExpression | classLiteral | fieldAccess | arrayAccess
  | methodInvocation | argumentList | methodReference | templateExpression
  | objectCreation | arrayCreation | dimensionExpression | arrayInitializer
  | castExpression | unaryExpression | updateExpression | binaryExpression | instanceofExpression
  | ternaryExpression | assignmentExpression | lambdaExpression
  | recordPattern | recordPatternBody | recordPatternComponent | typePattern | guard
  | switchExpression | switchBlock | switchGroup | switchRule | switchLabel
  -- statements
  | block | localVariableDeclaration
  | expressionStatement | labeledStatement | ifStatement | whileStatement | forStatement
  | enhancedForStatement | assertStatement | doStatement | breakStatement | continueStatement
  | returnStatement | yieldStatement | synchronizedStatement | throwStatement | tryStatement
  | tryWithResourcesStatement
  | resourceSpecification | resource | catchClause | catchParameter | catchType | finallyClause
  deriving DecidableEq

namespace Kind

def isComment : Kind → Bool
  | lineComment | blockComment => true
  | _ => false

def isStatement : Kind → Bool
  | expressionStatement | labeledStatement | ifStatement | whileStatement | forStatement
  | enhancedForStatement | assertStatement | doStatement | breakStatement | continueStatement
  | returnStatement | yieldStatement | synchronizedStatement | throwStatement | tryStatement
  | tryWithResourcesStatement => true
  | _ => false

end Kind

inductive Role where
  | object | name | arguments | field | type | declarator | value | key | body
  deriving DecidableEq

end MockDialect.Java
