import Mathlib.Tactic.Simps.Basic
import MockDialect.Java.Grammar.Declarations

namespace MockDialect.Java

attribute [simp] Kind.isComment

/-- The two kinds of body that members and statements are put into, and the lists in annotations. -/
@[simp] def Kind.isBraced : Kind → Bool
  | .classBody | .block | .elementValueArray => true
  | _ => false

/-- The two kinds of declaration that imports are put after. -/
@[simp] def Kind.isHeader : Kind → Bool
  | .importDeclaration | .packageDeclaration => true
  | _ => false

/-- The kinds of node that are never closed around others. -/
@[simp] def Kind.isBare : Kind → Bool
  | .token | .identifier | .thisExpression | .lineComment | .blockComment => true
  | _ => false

theorem Kind.isComment_of_isBare {kind : Kind} (h : kind.isBare = false) : kind.isComment = false := by
  cases kind <;> first | rfl | cases h

@[simp] def Kind.isParenthesized : Kind → Bool
  | .parenthesizedExpression | .argumentList => true
  | _ => false

/-- The phrases that are read as one expression. -/
@[simp] def Phrase.isExpression : Phrase → Bool
  | .expression | .binary _ | .unary | .primary | .lambda | .switchExpression => true
  | _ => false

namespace Rule

/-- What is asked of the parts of a rule. What is asked of a node or a role may rest on what the rule below it meets. -/
structure Conditions where
  token : Kind → Prop
  node : Kind → Rule → Prop → Prop
  role : Role → Rule → Prop → Prop
  grow : Rule → Rule → Prop
  phrase : Phrase → Prop

@[simp] def Meets (c : Conditions) : Rule → Prop
  | token _ kind => c.token kind
  | closeAngle => c.token .token
  | node kind content => c.node kind content (content.Meets c)
  | role r a => c.role r a (a.Meets c)
  | grow a b => a.Meets c ∧ b.Meets c ∧ c.grow a b
  | seq a b | alt a b => a.Meets c ∧ b.Meets c
  | many a => a.Meets c
  | choose select => ∀ s, (select s).Meets c
  | phrase p => c.phrase p
  | empty | ahead _ | absent _ => True

section
variable {c : Conditions}

@[simp] theorem meets_all_nil : (all []).Meets c := trivial

@[simp] theorem meets_all_cons (r : Rule) (rs : List Rule) :
    (all (r :: rs)).Meets c ↔ r.Meets c ∧ (all rs).Meets c := by
  cases rs <;> simp [all]

@[simp] theorem meets_any_nil : (any []).Meets c := trivial

@[simp] theorem meets_any_cons (r : Rule) (rs : List Rule) :
    (any (r :: rs)).Meets c ↔ r.Meets c ∧ (any rs).Meets c := by
  cases rs <;> simp [any]

@[simp] theorem meets_optional (r : Rule) : r.optional.Meets c ↔ r.Meets c := by simp [Rule.optional]

@[simp] theorem meets_oneOrMore (r : Rule) : r.oneOrMore.Meets c ↔ r.Meets c := by simp [oneOrMore]

@[simp] theorem meets_separated (separator item : Rule) :
    (separated separator item).Meets c ↔ item.Meets c ∧ separator.Meets c := by
  simp only [separated, Meets]
  exact ⟨fun h => ⟨h.1, h.2.1⟩, fun h => ⟨h.1, h.2, h.1⟩⟩

@[simp] theorem meets_commaSeparated (item : Rule) :
    (commaSeparated item).Meets c ↔ item.Meets c ∧ c.token .token := by
  simp [commaSeparated, word]

@[simp] theorem meets_word (text : String) : (word text).Meets c ↔ c.token .token := .rfl

@[simp] theorem meets_oneOf (texts : List String) : (oneOf texts).Meets c ↔ c.token .token := .rfl

@[simp] theorem meets_identifier : identifier.Meets c ↔ c.token .identifier := .rfl

@[simp] theorem meets_typeIdentifier : typeIdentifier.Meets c ↔ c.token .typeIdentifier := .rfl

@[simp] theorem meets_keyword (text : String) (kind : Kind) : (keyword text kind).Meets c ↔ c.token kind := .rfl

@[simp] theorem meets_literal (lexeme : Lexeme) (kind : Kind) : (literal lexeme kind).Meets c ↔ c.token kind := .rfl

end

/-- What the rule reads holds a node with a role. -/
@[simp] def Brings (r : Role) : Rule → Prop
  | role r' (token _ kind) => r' = r ∧ kind.isComment = false
  | role r' (phrase p) => r' = r ∧ p = .argumentList
  | seq a b => a.Brings r ∨ b.Brings r
  | _ => False

/-- What the rule reads begins with a word. -/
@[simp] def Begins (text : String) : Rule → Prop
  | token accept kind => kind = .token ∧ ∀ t, accept t = true → t.text = text
  | seq a _ => a.Begins text
  | _ => False

/-- What the rule reads ends with a word. -/
@[simp] def Ends (text : String) : Rule → Prop
  | token accept kind => kind = .token ∧ ∀ t, accept t = true → t.text = text
  | seq _ b => b.Ends text
  | _ => False

@[simps] def plainness : Conditions where
  token _ := True
  node _ _ _ := True
  role _ _ _ := False
  grow _ _ := False
  phrase _ := False

/-- What the rule reads are nodes without a role. -/
abbrev Plain (rule : Rule) : Prop := rule.Meets plainness

@[simps] def holding (r : Role) (p : Phrase) : Conditions where
  token _ := True
  node _ _ _ := True
  role r' a _ := r' = r → a = phrase p
  grow _ _ := False
  phrase q := (Grammar.java q).Plain

/-- What the rule reads has nothing in a role but a phrase. -/
abbrev Holds (r : Role) (p : Phrase) (rule : Rule) : Prop := rule.Meets (holding r p)

/-- What the rule reads begins with a leaf. -/
@[simp] def Leads : Rule → Prop
  | token _ kind => kind.isComment = false
  | seq a _ | role _ a => a.Leads
  | _ => False

/-- What the rule reads can be the content of a node: a call has a name and arguments, a body or list begins with
a brace, an import or package declaration ends with a semicolon, the body of a method is a block, and a list of
arguments has expressions in parentheses. -/
@[simp] def Fills (kind : Kind) (content : Rule) : Prop :=
  kind.isBare = false ∧ (kind = .methodInvocation → content.Brings .name ∧ content.Brings .arguments) ∧
  (kind.isBraced = true → content.Begins "\x7b") ∧ (kind.isHeader = true → content.Ends ";") ∧
  (kind = .methodDeclaration → content.Holds .body .block) ∧
  (kind = .methodInvocation → content.Leads ∧ content.Holds .arguments .argumentList) ∧
  (kind.isParenthesized = true → content.Begins "(") ∧
  (kind = .expressionStatement → content = seq (phrase .expression) (word ";")) ∧
  (kind = .argumentList →
    content = seq (word "(") (seq (commaSeparated (phrase .expression)) (word ")")))

/-- What the rule reads is a node that can take an operand in. -/
@[simp] def Grows : Rule → Prop
  | node kind _ => kind.isBare = false ∧ kind.isBraced = false ∧ kind.isHeader = false ∧
    kind ≠ .methodDeclaration ∧ kind.isParenthesized = false ∧ kind ≠ .expressionStatement
  | alt a b => a.Grows ∧ b.Grows
  | choose select => ∀ s, (select s).Grows
  | absent _ => True
  | _ => False

/-- What the rule reads begins with a node that is no punctuation. -/
@[simp] def Headed : Rule → Prop
  | token _ kind | node kind _ => kind.isComment = false ∧ kind ≠ .token
  | seq (ahead _) a | seq a _ => a.Headed
  | alt a b => a.Headed ∧ b.Headed
  | grow a b => a.Headed ∧ b.Grows
  | choose select => ∀ s, (select s).Headed
  | phrase p => p.isExpression = true
  | _ => False

theorem Headed.seq {a b : Rule} (h : (Rule.seq a b).Headed) : (∃ c, a = .ahead c ∧ b.Headed) ∨ a.Headed := by
  cases a with
  | ahead c => exact .inl ⟨c, rfl, h⟩
  | _ => exact .inr h

@[simps] def soundness : Conditions where
  token kind := kind.isComment = false ∧ kind ≠ .methodInvocation ∧ kind.isBraced = false ∧
    kind.isHeader = false ∧ kind.isParenthesized = false ∧ kind ≠ .expressionStatement
  node kind content inner := inner ∧ content.Fills kind
  role r _ inner := r ≠ .object ∧ inner
  grow _ b := b.Grows
  phrase _ := True

/-- All nodes that the rule closes have a content that fills them. Only an operand is made a qualifier. -/
abbrev Sound (rule : Rule) : Prop := rule.Meets soundness

theorem word_text {text : String} {t : Token} (h : t.isText text = true) : t.text = text := by
  simp only [Token.isText, Bool.and_eq_true, beq_iff_eq] at h
  exact h.2

@[simp] theorem begins_word (text : String) : (word text).Begins text := ⟨rfl, fun _ => word_text⟩

@[simp] theorem begins_all_cons (text : String) (a b : Rule) (rs : List Rule) :
    (all (a :: b :: rs)).Begins text ↔ a.Begins text := .rfl

end Rule

section
open Grammar Rule

@[simp] theorem qualifiedName_sound : qualifiedName.Sound := by simp [qualifiedName]

@[simp] theorem simpleType_sound : simpleType.Sound := by
  simp [simpleType, primitiveType, voidType, classType, keyword, annotations]

@[simp] theorem dimensions_sound : dimensions.Sound := by simp [dimensions, annotations]

@[simp] theorem plainType_sound : plainType.Sound := by simp [plainType]

theorem typeRule_sound : typeRule.Sound := by
  intro s
  dsimp only
  split <;> simp

@[simp] theorem typeParameters_sound : typeParameters.Sound := by
  simp [typeParameters, typeParameter, annotations, type]

theorem annotationRule_sound : annotationRule.Sound := by
  simp [annotationRule, annotationArguments, elementValuePair]

theorem elementValueRule_sound : elementValueRule.Sound := by
  intro s
  dsimp only
  split
  · exact trivial
  · exact ⟨by simp, by simp, by simp, fun _ => ⟨rfl, fun t => word_text⟩, by simp⟩
  · simp [expression]

theorem modifiersRule_sound : modifiersRule.Sound := by simp [modifiersRule, sealing]

theorem lambdaRule_sound : lambdaRule.Sound := by
  refine ⟨?_, by simp⟩
  simp only [meets_all_cons]
  refine ⟨fun s => ?_, by simp, fun s => ?_, trivial⟩
  · dsimp only
    split <;> simp [inferredParameters]
  · dsimp only
    split <;> simp [expression]

@[simp] theorem creation_sound : creation.Sound := by
  simp [creation, Grammar.typeArguments, annotations, arguments, anonymousBody]

@[simp] theorem parenthesized_sound : parenthesized.Sound := by simp [parenthesized, expression]

@[simp] theorem plainCall_sound : plainCall.Sound := by
  simp [plainCall, all, arguments, identifier]

theorem operand_sound : operand.Sound := by
  intro s
  dsimp only
  split <;> simp [keyword, literal, arrayCreation, annotations, dimensionExpression, classLiteral,
    typeReference, referenceTarget, expression, Grammar.typeArguments]

theorem suffix_sound : suffix.Sound := by
  intro s
  dsimp only
  split
  · refine (meets_any_cons _ _).mpr ⟨?_, ?_⟩
    · simp [all, word, Rule.optional, keyword, arguments, identifier, Grammar.typeArguments, java, typeArgumentsRule]
    · simp [keyword, literal]
  · simp [expression]
  · simp [referenceTarget, Grammar.typeArguments]
  · simp

theorem suffix_grows : suffix.Grows := by
  intro s
  dsimp only
  split
  · simp [any]
  all_goals simp

theorem unaryRule_sound : unaryRule.Sound := by
  intro s
  dsimp only
  split <;> simp [updated, Grammar.cast, primitiveType, type]

theorem binaryRule_sound (level : Nat) : (binaryRule level).Sound := by
  simp only [binaryRule]
  split <;> split <;> simp [instanceTest, type]

@[simp] theorem ternary_sound : ternary.Sound := by simp [ternary, expression]

theorem expressionRule_sound : expressionRule.Sound := by
  intro s
  dsimp only
  split <;> simp [assignment, expression]

theorem patternRule_sound : patternRule.Sound := by
  simp [patternRule, recordPattern, classType, annotations, type, optionalModifiers]

@[simp] theorem switchLabel_sound : switchLabel.Sound := by simp [switchLabel, Grammar.guard, expression]

@[simp] theorem switchRule_sound : switchRule.Sound := by
  refine ⟨?_, by simp⟩
  simp only [meets_all_cons]
  refine ⟨switchLabel_sound, by simp, fun s => ?_, trivial⟩
  dsimp only
  split <;> simp [expression, all]

theorem switchExpressionRule_sound : switchExpressionRule.Sound := by
  simp [switchExpressionRule, switchGroup]

theorem arrayInitializerRule_sound : arrayInitializerRule.Sound := by
  refine ⟨?_, by simp⟩
  simp only [meets_all_cons, meets_commaSeparated]
  refine ⟨by simp, ⟨fun s => ?_, by simp⟩, by simp⟩
  dsimp only
  split <;> simp [expression]

theorem argumentListRule_sound : argumentListRule.Sound := by simp [argumentListRule, expression, all]

theorem blockRule_sound : blockRule.Sound := by
  refine ⟨by simp [statement], by simp, by simp, ?_, by simp⟩
  intro _
  exact ⟨rfl, fun t => word_text⟩

@[simp] theorem variableName_sound : variableName.Sound := by simp [variableName]

@[simp] theorem initializer_sound : initializer.Sound := by
  intro s
  dsimp only
  split <;> simp [expression]

@[simp] theorem variableDeclarator_sound : variableDeclarator.Sound := by simp [variableDeclarator]

@[simp] theorem variableList_sound : variableList.Sound := by simp [variableList, optionalModifiers]

@[simp] theorem catchClause_sound : catchClause.Sound := by
  simp [catchClause, optionalModifiers, block]

@[simp] theorem finallyClause_sound : finallyClause.Sound := by simp [finallyClause, block]

@[simp] theorem tryStatement_sound : tryStatement.Sound := by
  simp [tryStatement, resourceSpecification, resource, optionalModifiers, expression, block]

@[simp] theorem expressionStatement_sound : expressionStatement.Sound := by
  simp [expressionStatement, expression, all]

@[simp] theorem otherStatement_sound : otherStatement.Sound := by
  simp [otherStatement, labeledStatement, statement]

theorem statementRule_sound : statementRule.Sound := by
  intro s
  dsimp only
  split <;> simp [block, statement, expression, ifStatement, whileStatement, doStatement, enhancedFor, basicFor,
    synchronizedStatement, jump, optionalModifiers]

@[simp] theorem throws_sound : Grammar.throws.Sound := by simp [Grammar.throws, type]

@[simp] theorem methodDeclaration_sound : methodDeclaration.Sound := by
  refine ⟨?_, by simp, by simp, by simp, by simp, fun _ => ?_, by simp⟩
  · simp [optionalModifiers, annotations, Grammar.name, Grammar.formalParameters, block]
  · simp [all, Rule.optional, optionalModifiers, annotations, Grammar.name, Grammar.formalParameters, block,
      typeParameters, dimensions, Grammar.throws, word, java, modifiersRule, annotationRule,
      formalParametersRule]

theorem formalParametersRule_sound : formalParametersRule.Sound := by
  simp [formalParametersRule, formalParameter, spreadParameter, receiverParameter, optionalModifiers,
    annotations, keyword]

@[simp] theorem constructorDeclaration_sound : constructorDeclaration.Sound := by
  simp [constructorDeclaration, constructorInvocation, optionalModifiers, Grammar.name,
    Grammar.formalParameters, Grammar.typeArguments, arguments, keyword, statement]

theorem memberRule_sound : memberRule.Sound := by
  intro s
  dsimp only
  split <;> simp [block, staticInitializer, compactConstructorDeclaration, optionalModifiers, Grammar.name,
    fieldDeclaration]

theorem classBodyRule_sound : classBodyRule.Sound := by
  refine ⟨by simp, by simp, by simp, ?_, by simp⟩
  intro _
  exact ⟨rfl, fun t => word_text⟩

@[simp] theorem constantDeclaration_sound : constantDeclaration.Sound := by simp [constantDeclaration]

theorem typeDeclarationRule_sound : typeDeclarationRule.Sound := by
  simp [typeDeclarationRule, classDeclaration, interfaceDeclaration, enumDeclaration, recordDeclaration,
    annotationTypeDeclaration, optionalModifiers, Grammar.name, superclass, implemented, permitted, typeList,
    Grammar.classBody, interfaceBody, enumBody, enumConstant, annotationTypeBody, annotationElement,
    Grammar.formalParameters, arguments, type]

@[simp] theorem packageDeclaration_sound : packageDeclaration.Sound := by
  refine ⟨by simp [annotations], by simp, by simp, by simp, ?_, by simp⟩
  intro _
  exact ⟨rfl, fun t => word_text⟩

@[simp] theorem importDeclaration_sound : importDeclaration.Sound := by
  refine ⟨by simp [keyword], by simp, by simp, by simp, ?_, by simp⟩
  intro _
  exact ⟨rfl, fun t => word_text⟩

@[simp] theorem moduleDeclaration_sound : moduleDeclaration.Sound := by
  simp [moduleDeclaration, moduleDirective, annotations, Grammar.names]

theorem topLevel_sound : topLevel.Sound := by
  intro s
  dsimp only
  split <;> simp [statement]

theorem java_sound (p : Phrase) : (java p).Sound := by
  cases p with
  | type => exact typeRule_sound
  | typeArguments => simp [java, typeArgumentsRule, Grammar.wildcard, annotations, type]
  | annotationMark => exact annotationRule_sound
  | modifiers => exact modifiersRule_sound
  | elementValue => exact elementValueRule_sound
  | expression => exact expressionRule_sound
  | binary level => exact binaryRule_sound level
  | unary => exact unaryRule_sound
  | primary => exact ⟨operand_sound, suffix_sound, suffix_grows⟩
  | lambda => exact lambdaRule_sound
  | argumentList => exact argumentListRule_sound
  | arrayInitializer => exact arrayInitializerRule_sound
  | switchExpression => exact switchExpressionRule_sound
  | pattern => exact patternRule_sound
  | block => exact blockRule_sound
  | statement => exact statementRule_sound
  | localVariable => simp [java, localVariableRule]
  | classBody => exact classBodyRule_sound
  | memberDeclaration => exact memberRule_sound
  | typeDeclaration => exact typeDeclarationRule_sound
  | formalParameters => exact formalParametersRule_sound

theorem operand_headed : operand.Headed := by
  intro s
  dsimp only
  split <;> simp [parenthesized, keyword, literal, identifier, all, any, arrayCreation, plainCall, classLiteral,
    typeReference]

theorem unaryRule_headed : unaryRule.Headed := by
  intro s
  dsimp only
  split <;> simp [updated, Grammar.cast]

theorem binaryRule_headed (level : Nat) : (binaryRule level).Headed := by
  simp only [binaryRule]
  split <;> split <;> simp [instanceTest]

theorem expressionRule_headed : expressionRule.Headed := by
  intro s
  dsimp only
  split <;> simp [assignment, ternary, all]

theorem java_headed {p : Phrase} (h : p.isExpression = true) : (java p).Headed := by
  cases p with
  | expression => exact expressionRule_headed
  | binary level => exact binaryRule_headed level
  | unary => exact unaryRule_headed
  | primary => exact ⟨operand_headed, suffix_grows⟩
  | lambda | switchExpression => exact ⟨rfl, nofun⟩
  | _ => cases h

end

end MockDialect.Java
