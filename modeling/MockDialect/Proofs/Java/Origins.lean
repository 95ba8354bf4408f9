import MockDialect.Proofs.Java.Streams

namespace MockDialect.Java

open Text

/-- Expressions that a dot can follow. -/
@[simp] def Kind.isPrimary : Kind → Bool
  | .identifier | .numberLiteral | .characterLiteral | .stringLiteral | .trueLiteral | .falseLiteral | .nullLiteral
  | .thisExpression | .superExpression | .parenthesizedExpression | .classLiteral | .fieldAccess | .arrayAccess
  | .methodInvocation | .methodReference | .templateExpression | .objectCreation | .arrayCreation
  | .switchExpression => true
  | _ => false

/-- Statements, and local variables where they are declared. -/
@[simp] def Kind.isStep : Kind → Bool
  | .localVariableDeclaration => true
  | kind => kind.isStatement

/-- The kinds of node that steps stand in: those with a list of them, and those with one as their body. -/
@[simp] def Kind.holdsSteps : Kind → Bool
  | .block | .constructorBody | .switchGroup | .program
  | .ifStatement | .whileStatement | .doStatement | .forStatement | .enhancedForStatement | .labeledStatement
  | .switchRule => true
  | _ => false

/-- What can stand in a kind of node, as far as statements and what declares variables go. -/
@[simp] def Kind.holds (holder : Kind) : Kind → Bool
  | .fieldDeclaration => holder == .classBody || holder == .enumBodyDeclarations
  | .formalParameters => holder == .methodDeclaration || holder == .constructorDeclaration ||
      holder == .lambdaExpression || holder == .recordDeclaration
  | .formalParameter => holder == .formalParameters
  | .resourceSpecification => holder == .tryWithResourcesStatement
  | .resource => holder == .resourceSpecification
  | .enumBodyDeclarations => holder == .enumBody
  | .program => false
  | kind => !kind.isStep || holder.holdsSteps

@[simp] def Kind.holdsPhrase (holder : Kind) : Phrase → Bool
  | .statement | .localVariable => holder.holdsSteps
  | .memberDeclaration => holder.holds .fieldDeclaration
  | .formalParameters => holder.holds .formalParameters
  | _ => true

/-- The kinds of node whose first operand has no role in them. -/
@[simp] def Kind.isUnqualified (kind : Kind) : Bool := kind.operandRole.isNone

@[simp] def Phrase.isSwitch : Phrase → Bool
  | .switchExpression => true
  | _ => false

/-- The word that ends what declares variables. -/
@[simp] def Kind.lastWord? : Kind → Option String
  | .fieldDeclaration | .localVariableDeclaration => some ";"
  | .formalParameters | .resourceSpecification => some ")"
  | _ => none

/-- The kinds of node of which the origin is followed further, which no token is of. -/
@[simp] def Kind.isComposed : Kind → Bool
  | .objectCreation | .classLiteral | .enumBodyDeclarations => true
  | kind => kind.lastWord?.isSome

attribute [simp] Kind.isStatement Kind.operandRole

theorem Kind.holdsSteps_of_holds {kind holder : Kind} (h : holder.holds kind = true) (hstep : kind.isStep = true) :
    holder.holdsSteps = true := by
  cases kind <;> simp_all

theorem Kind.composed_of_lastWord? {kind : Kind} {word : String} (h : kind.lastWord? = some word) :
    kind.isComposed = true ∧ Kind.token.holds kind = false := by
  cases kind <;> first | exact ⟨rfl, rfl⟩ | cases h

namespace Rule

@[simps] def giving (kinds : Kind → Bool) (phrases : Phrase → Bool) : Conditions where
  token kind := kinds kind = true
  node kind _ _ := kinds kind = true
  role _ _ inner := inner
  grow _ _ := True
  phrase p := phrases p = true

/-- The nodes that the rule reads are comments or of some kinds, if its phrases are among those that are known to be
so. -/
abbrev Gives (kinds : Kind → Bool) (phrases : Phrase → Bool) (rule : Rule) : Prop := rule.Meets (giving kinds phrases)

/-- What the rule reads can stand in a kind of node. -/
abbrev FitsIn (rule : Rule) (holder : Kind) : Prop := rule.Gives holder.holds holder.holdsPhrase

/-- What the rule reads are primary expressions. -/
abbrev Primary (rule : Rule) : Prop := rule.Gives Kind.isPrimary Phrase.isSwitch

@[simps] def origins : Conditions where
  token kind := kind.isComposed = false
  node kind content inner := inner ∧
    (kind = .objectCreation → content = Grammar.creation ∨ content = seq (word ".") Grammar.creation) ∧
    (kind = .classLiteral → content.Ends "class") ∧ (kind = .enumBodyDeclarations → content.Begins ";") ∧
    (∀ word, kind.lastWord? = some word → content.Ends word) ∧ content.FitsIn kind
  role _ _ inner := inner
  grow a b := (∀ holder, (grow a b).FitsIn holder) ∧
    (b.Gives Kind.isUnqualified (fun _ => false) ∨ a.Primary ∧ b.Primary)
  phrase _ := True

/-- All nodes that the rule closes are of known origin. -/
abbrev Known (rule : Rule) : Prop := rule.Meets origins

@[simp] theorem ends_word (text : String) : (word text).Ends text := ⟨rfl, fun _ => word_text⟩

@[simp] theorem ends_all_singleton (text : String) (r : Rule) : (all [r]).Ends text ↔ r.Ends text := .rfl

@[simp] theorem ends_all_cons (text : String) (a b : Rule) (rs : List Rule) :
    (all (a :: b :: rs)).Ends text ↔ (all (b :: rs)).Ends text := .rfl

end Rule

section
open Grammar Rule

@[simp] theorem qualifiedName_fits (holder : Kind) : qualifiedName.FitsIn holder := by simp [qualifiedName]

@[simp] theorem classType_fits (holder : Kind) : classType.FitsIn holder := by simp [classType]

@[simp] theorem simpleType_fits (holder : Kind) : simpleType.FitsIn holder := by
  simp [simpleType, primitiveType, voidType]

@[simp] theorem plainType_fits (holder : Kind) : plainType.FitsIn holder := by simp [plainType]

@[simp] theorem dimensions_fits (holder : Kind) : dimensions.FitsIn holder := by simp [dimensions]

@[simp] theorem annotations_fits (holder : Kind) : annotations.FitsIn holder := by simp [annotations]

theorem operand_fits (holder : Kind) : operand.FitsIn holder := by
  intro s
  dsimp only
  split <;> simp [parenthesized, arrayCreation, plainCall, classLiteral, typeReference]

theorem suffix_fits (holder : Kind) : suffix.FitsIn holder := by
  intro s
  dsimp only
  split <;> simp

@[simp] theorem ternary_fits (holder : Kind) : ternary.FitsIn holder := by simp [ternary]

@[simp] theorem qualifiedName_known : qualifiedName.Known := by simp [qualifiedName]

@[simp] theorem annotations_known : annotations.Known := by simp [annotations]

@[simp] theorem classType_known : classType.Known := by simp [classType]

@[simp] theorem dimensions_known : dimensions.Known := by simp [dimensions]

@[simp] theorem simpleType_known : simpleType.Known := by simp [simpleType, primitiveType, voidType]

@[simp] theorem plainType_known : plainType.Known := by simp [plainType]

@[simp] theorem typeParameters_known : typeParameters.Known := by
  simp [typeParameters, typeParameter, type]

@[simp] theorem typeParameters_fits (holder : Kind) : typeParameters.FitsIn holder := by simp [typeParameters]

@[simp] theorem creation_known : creation.Known := by
  simp [creation, Grammar.typeArguments, arguments, anonymousBody]

@[simp] theorem creation_fits (holder : Kind) : creation.FitsIn holder := by
  simp [creation, Grammar.typeArguments, arguments, anonymousBody]

@[simp] theorem parenthesized_known : parenthesized.Known := by simp [parenthesized, expression]

@[simp] theorem classLiteral_known : classLiteral.Known :=
  ⟨by simp, nofun, fun _ => ⟨rfl, fun _ => word_text⟩, nofun, nofun, by simp⟩

theorem operand_known : operand.Known := by
  intro s
  dsimp only
  split <;> simp [arrayCreation, dimensionExpression, plainCall, arguments, typeReference, referenceTarget,
    expression, Grammar.typeArguments]

theorem suffix_known : suffix.Known := by
  intro s
  dsimp only
  split <;> simp [arguments, referenceTarget, expression, Grammar.typeArguments, all]

theorem operand_primary : operand.Primary := by
  intro s
  dsimp only
  split <;> simp [parenthesized, arrayCreation, plainCall, classLiteral, typeReference]

theorem suffix_primary : suffix.Primary := by
  intro s
  dsimp only
  split <;> simp

@[simp] theorem ternary_known : ternary.Known := by simp [ternary, expression]

@[simp] theorem switchLabel_known : switchLabel.Known := by
  simp [switchLabel, Grammar.guard, expression]

@[simp] theorem switchLabel_fits (holder : Kind) : switchLabel.FitsIn holder := by simp [switchLabel]

@[simp] theorem switchRule_fits (holder : Kind) : switchRule.FitsIn holder := by simp [switchRule]

@[simp] theorem switchRule_known : switchRule.Known := by
  refine ⟨?_, nofun, nofun, nofun, nofun, ?_⟩
  · simp only [meets_all_cons]
    refine ⟨switchLabel_known, by simp, fun s => ?_, trivial⟩
    dsimp only
    split <;> simp [expression]
  · simp only [meets_all_cons]
    refine ⟨switchLabel_fits _, rfl, fun s => ?_, trivial⟩
    dsimp only
    split <;> simp

theorem switchExpressionRule_known : switchExpressionRule.Known := by
  simp [switchExpressionRule, switchGroup, parenthesized, expression]

theorem lambdaRule_known : lambdaRule.Known := by
  refine ⟨?_, nofun, nofun, nofun, nofun, ?_⟩
  · simp only [meets_all_cons]
    refine ⟨fun s => ?_, by simp, fun s => ?_, trivial⟩
    · dsimp only
      split <;> simp [inferredParameters]
    · dsimp only
      split <;> simp [expression]
  · simp only [meets_all_cons]
    refine ⟨fun s => ?_, rfl, fun s => ?_, trivial⟩
    · dsimp only
      split <;> simp [inferredParameters]
    · dsimp only
      split <;> simp [expression]

theorem arrayInitializerRule_known : arrayInitializerRule.Known := by
  refine ⟨?_, nofun, nofun, nofun, nofun, ?_⟩
  · simp only [meets_all_cons, meets_commaSeparated]
    refine ⟨by simp, ⟨fun s => ?_, by simp⟩, by simp⟩
    dsimp only
    split <;> simp [expression]
  · simp only [meets_all_cons, meets_commaSeparated]
    refine ⟨rfl, ⟨fun s => ?_, rfl⟩, by simp⟩
    dsimp only
    split <;> simp [expression]

@[simp] theorem optionalModifiers_known : optionalModifiers.Known := by simp [optionalModifiers]

@[simp] theorem optionalModifiers_fits (holder : Kind) : optionalModifiers.FitsIn holder := by simp [optionalModifiers]

@[simp] theorem variableName_known : variableName.Known := by simp [variableName]

@[simp] theorem variableName_fits (holder : Kind) : variableName.FitsIn holder := by simp [variableName]

@[simp] theorem initializer_known : initializer.Known := by
  intro s
  dsimp only
  split <;> simp [expression]

@[simp] theorem initializer_fits (holder : Kind) : initializer.FitsIn holder := by
  intro s
  dsimp only
  split <;> simp [expression]

@[simp] theorem variableDeclarator_known : variableDeclarator.Known := by simp [variableDeclarator]

@[simp] theorem variableList_known : variableList.Known := by simp [variableList]

@[simp] theorem variableList_fits (holder : Kind) : variableList.FitsIn holder := by
  simp [variableList, variableDeclarator]

@[simp] theorem variableList_ends : variableList.Ends ";" := by simp [variableList]

@[simp] theorem tryStatement_known : tryStatement.Known := by
  simp [tryStatement, resourceSpecification, resource, catchClause, finallyClause, expression, block]

@[simp] theorem otherStatement_known : otherStatement.Known := by
  simp [otherStatement, labeledStatement, expressionStatement, statement, expression]

theorem statementRule_known : statementRule.Known := by
  intro s
  dsimp only
  split <;> simp [block, statement, expression, ifStatement, whileStatement, doStatement, enhancedFor, basicFor,
    synchronizedStatement, expressionStatement, jump, parenthesized]

@[simp] theorem throws_known : Grammar.throws.Known := by simp [Grammar.throws, type]

@[simp] theorem throws_fits (holder : Kind) : Grammar.throws.FitsIn holder := by simp [Grammar.throws]

@[simp] theorem methodDeclaration_known : methodDeclaration.Known := by
  simp [methodDeclaration, Grammar.name, Grammar.formalParameters, block]

@[simp] theorem methodDeclaration_fits (holder : Kind) : methodDeclaration.FitsIn holder := by simp [methodDeclaration]

theorem formalParametersRule_known : formalParametersRule.Known := by
  simp [formalParametersRule, formalParameter, spreadParameter, receiverParameter, variableDeclarator]

@[simp] theorem constructorDeclaration_known : constructorDeclaration.Known := by
  simp [constructorDeclaration, constructorInvocation, Grammar.name, Grammar.formalParameters,
    Grammar.typeArguments, arguments, statement]

theorem memberRule_known : memberRule.Known := by
  intro s
  dsimp only
  split <;> simp [block, staticInitializer, compactConstructorDeclaration, Grammar.name, fieldDeclaration]

@[simp] theorem constantDeclaration_known : constantDeclaration.Known := by simp [constantDeclaration]

@[simp] theorem constantDeclaration_fits (holder : Kind) : constantDeclaration.FitsIn holder := by
  simp [constantDeclaration]

theorem typeDeclarationRule_known : typeDeclarationRule.Known := by
  simp [typeDeclarationRule, classDeclaration, interfaceDeclaration, enumDeclaration, recordDeclaration,
    annotationTypeDeclaration, Grammar.name, superclass, implemented, permitted, typeList,
    Grammar.classBody, interfaceBody, enumBody, enumConstant, annotationTypeBody, annotationElement,
    Grammar.formalParameters, arguments, type]

theorem topLevel_known : topLevel.Known := by
  intro s
  dsimp only
  split <;> simp [statement, importDeclaration, packageDeclaration, moduleDeclaration, moduleDirective,
    Grammar.names]

theorem java_fits {p : Phrase} {holder : Kind} (h : holder.holdsPhrase p = true) : (java p).FitsIn holder := by
  cases p with
  | type =>
    intro s
    dsimp only
    split <;> simp
  | elementValue =>
    intro s
    dsimp only
    split <;> simp [expression]
  | expression =>
    intro s
    dsimp only
    split <;> simp [assignment]
  | unary =>
    intro s
    dsimp only
    split <;> simp [updated, Grammar.cast]
  | binary level =>
    simp only [java, binaryRule]
    split <;> split <;> simp [instanceTest]
  | primary => exact ⟨operand_fits holder, suffix_fits holder, trivial⟩
  | memberDeclaration =>
    have hholder : holder = .classBody ∨ holder = .enumBodyDeclarations := by simpa using h
    intro s
    dsimp only
    split <;> simp [block, staticInitializer, constructorDeclaration, compactConstructorDeclaration,
      fieldDeclaration, hholder]
  | formalParameters =>
    change holder.holds .formalParameters = true
    exact h
  | statement =>
    have hsteps : holder.holdsSteps = true := h
    intro s
    dsimp only
    split <;> simp [block, ifStatement, whileStatement, doStatement, enhancedFor, basicFor, tryStatement,
      synchronizedStatement, expressionStatement, jump, otherStatement, labeledStatement, hsteps, -Kind.holdsSteps]
  | localVariable =>
    have hsteps : holder.holdsSteps = true := h
    simp [java, localVariableRule, hsteps, -Kind.holdsSteps]
  | _ => simp [java, typeArgumentsRule, annotationRule, modifiersRule, lambdaRule, argumentListRule,
      arrayInitializerRule, switchExpressionRule, patternRule, recordPattern, blockRule, classBodyRule,
      typeDeclarationRule, classDeclaration, interfaceDeclaration, enumDeclaration, recordDeclaration,
      annotationTypeDeclaration]

theorem java_known (p : Phrase) : (java p).Known := by
  cases p with
  | type =>
    intro s
    dsimp only
    split <;> simp
  | elementValue =>
    intro s
    dsimp only
    split <;> simp [expression]
  | expression =>
    intro s
    dsimp only
    split <;> simp [assignment, expression]
  | unary =>
    intro s
    dsimp only
    split <;> simp [updated, Grammar.cast, primitiveType, type]
  | binary level =>
    simp only [java, binaryRule]
    split <;> split <;> simp [instanceTest, type]
  | primary =>
    exact ⟨operand_known, suffix_known, fun holder => ⟨operand_fits holder, suffix_fits holder, trivial⟩,
      .inr ⟨operand_primary, suffix_primary⟩⟩
  | lambda => exact lambdaRule_known
  | arrayInitializer => exact arrayInitializerRule_known
  | switchExpression => exact switchExpressionRule_known
  | statement => exact statementRule_known
  | localVariable => simp [java, localVariableRule]
  | memberDeclaration => exact memberRule_known
  | typeDeclaration => exact typeDeclarationRule_known
  | formalParameters => exact formalParametersRule_known
  | _ => simp [java, typeArgumentsRule, Grammar.wildcard, annotationRule, annotationArguments, elementValuePair,
      modifiersRule, sealing, argumentListRule, patternRule, recordPattern, blockRule, classBodyRule, statement,
      expression, type]

end

variable {text : List Char} {rule : Rule} {ts rest : List Token} {xs : List Node} {lo hi : Nat}

@[simp] theorem kind_withRole (r : Role) (n : Node) : (n.withRole r).kind = n.kind := by
  cases n
  rfl

@[simp] theorem children_withRole (r : Role) (n : Node) : (n.withRole r).children = n.children := by
  cases n
  rfl

@[simp] theorem kind_withRoleIfCode (r : Role) (n : Node) : (n.withRoleIfCode r).kind = n.kind := by
  unfold Node.withRoleIfCode
  split <;> simp

@[simp] theorem children_withRoleIfCode (r : Role) (n : Node) : (n.withRoleIfCode r).children = n.children := by
  unfold Node.withRoleIfCode
  split <;> simp

theorem Reads.gives {kinds : Kind → Bool} {phrases : Phrase → Bool} (h : Reads Grammar.java rule ts xs rest)
    (hphrases : ∀ p, phrases p = true → (Grammar.java p).Gives kinds phrases) (hgives : rule.Gives kinds phrases)
    (hts : Lined text lo ts hi) : ∀ x ∈ xs, x.isComment = false → kinds x.kind = true := by
  have hleaf : ∀ {comments : List Node} {kind : Kind} {span : Span}, Remarks comments → kinds kind = true →
      ∀ x ∈ comments ++ [.leaf kind span], x.isComment = false → kinds x.kind = true := by
    intro comments kind span hremarks hkind
    refine List.forall_mem_append.mpr ⟨fun x hx hcode => ?_, List.forall_mem_singleton.mpr fun _ => hkind⟩
    rw [hremarks.isComment x hx] at hcode
    cases hcode
  induction h generalizing lo with
  | empty | done | ahead | absent => exact nofun
  | token _ => exact hleaf hts.2.1 hgives
  | closeAngle hc =>
    obtain ⟨t, more, span, rfl, rfl⟩ := closeAngle?_eq hc
    exact hleaf hts.2.1 hgives
  | seq h₁ _ ih₁ ih₂ =>
    obtain ⟨_, _, hmid⟩ := h₁.laid hts
    exact List.forall_mem_append.mpr ⟨ih₁ hgives.1 hts, ih₂ hgives.2 hmid⟩
  | more h₁ _ ih₁ ih₂ =>
    obtain ⟨_, _, hmid⟩ := h₁.laid hts
    exact List.forall_mem_append.mpr ⟨ih₁ hgives hts, ih₂ hgives hmid⟩
  | left _ ih | operand _ ih => exact ih hgives.1 hts
  | right _ ih => exact ih hgives.2 hts
  | choose _ ih => exact ih (hgives _) hts
  | phrase _ ih => exact ih (hphrases _ hgives) hts
  | node _ hc ih =>
    refine forall_of_close? hc (fun x _ hcomment hcode => ?_) fun n ns _ _ => hgives
    rw [hcomment] at hcode
    cases hcode
  | role _ ih =>
    intro x hx hcode
    obtain ⟨y, hy, rfl⟩ := List.mem_map.mp hx
    rw [isComment_withRoleIfCode] at hcode
    rw [kind_withRoleIfCode]
    exact ih hgives hts y hy hcode
  | @suffix operand suffix ts mid rest xs ys zs h₁ h₂ ha ih₁ ih₂ =>
    obtain ⟨_, _, hmid⟩ := h₁.laid hts
    obtain ⟨left, kind, r, span, children, -, hdy, left', -, -, -, rfl⟩ := adopt?_eq ha
    have hgrown : Node.mk kind r span children ∈ ys := (List.dropWhile_sublist Node.isComment).subset (by simp [hdy])
    intro z hz hcode
    rcases List.mem_append.mp hz with hz | hz
    · exact ih₁ hgives hts z (List.takeWhile_subset _ hz) hcode
    · rw [List.mem_singleton.mp hz]
      have hkind := ih₂ hgives.2.1 hmid _ hgrown (isComment_of_dropWhile hdy)
      exact hkind

theorem Reads.fits {holder : Kind} (h : Reads Grammar.java rule ts xs rest) (hrule : rule.FitsIn holder)
    (hts : Lined text lo ts hi) : ∀ x ∈ xs, holder.holds x.kind = true := by
  intro x hx
  cases hcode : x.isComment with
  | false => exact h.gives (fun p => java_fits) hrule hts x hx hcode
  | true =>
    rw [Node.isComment] at hcode
    cases hkind : x.kind <;> simp_all

@[simp] def Phrase.isSingle : Phrase → Bool
  | .argumentList => true
  | p => p.isExpression

namespace Rule

/-- What the rule reads is one node and the comments in front of it. -/
@[simp] def Single : Rule → Prop
  | token _ kind | node kind _ => kind.isComment = false
  | seq (ahead _) a | seq a (absent _) | grow a _ | role _ a => a.Single
  | alt a b => a.Single ∧ b.Single
  | choose select => ∀ s, (select s).Single
  | phrase p => p.isSingle = true
  | _ => False

end Rule

section
open Grammar Rule

theorem simpleType_single : simpleType.Single := ⟨rfl, rfl, rfl⟩

theorem operand_single : operand.Single := by
  intro s
  dsimp only
  split
  case h_7 => exact ⟨rfl, rfl⟩
  case h_9 => exact ⟨rfl, rfl, rfl⟩
  case h_10 => exact ⟨rfl, rfl, rfl, rfl, rfl⟩
  all_goals exact rfl

theorem java_single {p : Phrase} (h : p.isSingle = true) : (java p).Single := by
  cases p with
  | expression =>
    intro s
    dsimp only
    split <;> exact ⟨rfl, rfl⟩
  | binary level =>
    change Rule.Single (if level < 9 then phrase (.binary (level + 1)) else phrase .unary)
    split <;> rfl
  | unary =>
    intro s
    dsimp only
    split
    case h_7 => exact ⟨rfl, rfl⟩
    all_goals exact rfl
  | primary => exact operand_single
  | lambda | argumentList | switchExpression => exact rfl
  | _ => cases h

end

theorem Reads.single (h : Reads Grammar.java rule ts xs rest) (hr : rule.Single) (hts : Lined text lo ts hi) :
    ∃ front n, xs = front ++ [n] ∧ (∀ x ∈ front, x.isComment = true) ∧ n.isComment = false := by
  induction h generalizing lo with
  | @token accept kind t rest _ => exact ⟨t.comments, .leaf kind t.span, rfl, hts.2.1.isComment, hr⟩
  | @seq a b _ _ _ _ _ h₁ h₂ ih₁ ih₂ =>
    cases a with
    | ahead c =>
      cases h₁
      exact ih₂ hr hts
    | _ =>
      cases b with
      | absent c =>
        cases h₂
        rw [List.append_nil]
        exact ih₁ hr hts
      | _ => cases hr
  | left _ ih => exact ih hr.1 hts
  | right _ ih => exact ih hr.2 hts
  | operand _ ih => exact ih hr hts
  | choose _ ih => exact ih (hr _) hts
  | phrase _ ih => exact ih (java_single hr) hts
  | node _ hc _ =>
    obtain ⟨n, ns, -, rfl⟩ := close?_eq hc
    exact ⟨_, _, rfl, List.all_eq_true.mp List.all_takeWhile, hr⟩
  | @role r _ _ _ _ _ ih =>
    obtain ⟨front, n, rfl, hfront, hn⟩ := ih hr hts
    refine ⟨front.map (Node.withRoleIfCode r), n.withRoleIfCode r, by simp, fun x hx => ?_, ?_⟩
    · obtain ⟨y, hy, rfl⟩ := List.mem_map.mp hx
      rw [isComment_withRoleIfCode]
      exact hfront y hy
    · rwa [isComment_withRoleIfCode]
  | suffix _ _ ha _ _ =>
    obtain ⟨left, kind, r, span, children, -, hdy, left', -, -, -, rfl⟩ := adopt?_eq ha
    have hcode := isComment_of_dropWhile hdy
    exact ⟨_, _, rfl, List.all_eq_true.mp List.all_takeWhile, hcode⟩
  | _ => cases hr

/-- How the children of a node came together: a leaf has none, and a node with some was closed around what a rule
reads or took an operand in. -/
inductive Node.Origin (text : List Char) : Node → Prop where
  | leaf {n : Node} (bare : n.children = []) (kind : n.kind.isComposed = false) : Origin text n
  | closed {n : Node} {content : Rule} {ts rest : List Token} {xs : List Node}
      (known : (Rule.node n.kind content).Known) (sound : (Rule.node n.kind content).Sound) (stream : Stream text ts)
      (inner : Reads Grammar.java content ts xs rest) (children : n.children = xs.dropWhile Node.isComment) :
      Origin text n
  | grown {n left left' right : Node} {operand suffix : Rule} {ts mid rest : List Token} {xs ys : List Node}
      (known : (Rule.grow operand suffix).Known) (sound : (Rule.grow operand suffix).Sound) (stream : Stream text ts)
      (first : Reads Grammar.java (.grow operand suffix) ts xs mid) (before : xs.dropWhile Node.isComment = [left])
      (next : Reads Grammar.java suffix mid ys rest) (behind : ys.dropWhile Node.isComment = [right])
      (made : Origin text right) (kind : right.kind = n.kind)
      (taken : left' = left ∨ ∃ r, n.kind.operandRole = some r ∧ left' = left.withRole r)
      (children : n.children = left' :: ys.takeWhile Node.isComment ++ right.children) : Origin text n

theorem adopt?_taken {ys zs : List Node} (h : Node.adopt? xs ys = some zs) :
    ∃ left right left', xs.dropWhile Node.isComment = [left] ∧ ys.dropWhile Node.isComment = [right] ∧
      (left' = left ∨ ∃ r, right.kind.operandRole = some r ∧ left' = left.withRole r) ∧
      zs = xs.takeWhile Node.isComment ++ [.mk right.kind none ⟨left'.span.start, right.span.stop⟩
        (left' :: ys.takeWhile Node.isComment ++ right.children)] := by
  unfold Node.adopt? at h
  split at h
  · next left kind r span children hx hy =>
    simp only [Option.some.injEq] at h
    cases hrole : kind.operandRole with
    | none =>
      rw [hrole] at h
      exact ⟨left, _, left, hx, hy, .inl rfl, h.symm⟩
    | some role =>
      rw [hrole] at h
      exact ⟨left, _, left.withRole role, hx, hy, .inr ⟨role, hrole, rfl⟩, h.symm⟩
  · cases h

theorem Node.Origin.congr {n m : Node} (h : n.Origin text) (hkind : m.kind = n.kind)
    (hchildren : m.children = n.children) : m.Origin text := by
  cases h with
  | leaf bare kind => exact .leaf (hchildren.trans bare) (hkind ▸ kind)
  | closed known sound stream inner children =>
    exact .closed (hkind ▸ known) (hkind ▸ sound) stream inner (hchildren.trans children)
  | grown known sound stream first before next behind made kind taken children =>
    exact .grown known sound stream first before next behind made (kind.trans hkind.symm) (hkind ▸ taken)
      (hchildren.trans children)

theorem Node.All.origin_congr {n m : Node} (h : n.All (Node.Origin text)) (hkind : m.kind = n.kind)
    (hchildren : m.children = n.children) : m.All (Node.Origin text) :=
  .mk (h.self.congr hkind hchildren) fun _ hk => h.child (hchildren ▸ hk)

theorem Remarks.origin {ns : List Node} (h : Remarks ns) : ∀ n ∈ ns, n.All (Node.Origin text) := by
  intro n hn
  obtain ⟨kind, span, rfl, hcomment⟩ := h n hn
  refine .leaf (.leaf rfl ?_)
  change kind.isComposed = false
  cases kind <;> first | rfl | cases hcomment

theorem Reads.origin (h : Reads Grammar.java rule ts xs rest) (hk : rule.Known) (hs : rule.Sound)
    (hts : Stream text ts) : ∀ x ∈ xs, x.All (Node.Origin text) := by
  have hleaf : ∀ {comments : List Node} {kind : Kind} {span : Span}, Remarks comments → kind.isComposed = false →
      ∀ x ∈ comments ++ [.leaf kind span], x.All (Node.Origin text) := fun hremarks hkind =>
    List.forall_mem_append.mpr ⟨hremarks.origin, List.forall_mem_singleton.mpr (.leaf (.leaf rfl hkind))⟩
  induction h with
  | empty | done | ahead | absent => exact nofun
  | token _ =>
    obtain ⟨lo, hi, hlined⟩ := hts.lined
    exact hleaf hlined.2.1 hk
  | closeAngle hc =>
    obtain ⟨t, more, span, rfl, rfl⟩ := closeAngle?_eq hc
    obtain ⟨lo, hi, hlined⟩ := hts.lined
    exact hleaf hlined.2.1 rfl
  | seq h₁ _ ih₁ ih₂ => exact List.forall_mem_append.mpr ⟨ih₁ hk.1 hs.1 hts, ih₂ hk.2 hs.2 (h₁.stream hts)⟩
  | more h₁ _ ih₁ ih₂ => exact List.forall_mem_append.mpr ⟨ih₁ hk hs hts, ih₂ hk hs (h₁.stream hts)⟩
  | left _ ih => exact ih hk.1 hs.1 hts
  | right _ ih => exact ih hk.2 hs.2 hts
  | operand _ ih => exact ih hk.1 hs.1 hts
  | choose _ ih => exact ih (hk _) (hs _) hts
  | phrase _ ih => exact ih (java_known _) (java_sound _) hts
  | node inner hc ih =>
    refine forall_of_close? hc (fun x hx _ => ih hk.1 hs.1 hts x hx) fun n ns hd => ?_
    refine .mk (.closed hk hs hts inner hd.symm) fun m hm => ih hk.1 hs.1 hts m ?_
    rw [Node.children_mk, ← hd] at hm
    exact (List.dropWhile_sublist _).subset hm
  | role _ ih =>
    intro x hx
    obtain ⟨y, hy, rfl⟩ := List.mem_map.mp hx
    exact (ih hk hs.2 hts y hy).origin_congr (kind_withRoleIfCode _ _) (children_withRoleIfCode _ _)
  | @suffix operand suffix ts mid rest xs ys zs h₁ h₂ ha ih₁ ih₂ =>
    have hx := ih₁ hk hs hts
    have hy := ih₂ hk.2.1 hs.2.1 (h₁.stream hts)
    obtain ⟨left, right, left', hdx, hdy, htaken, rfl⟩ := adopt?_taken ha
    have hleft : left ∈ xs := (List.dropWhile_sublist Node.isComment).subset (by simp [hdx])
    have hright : right ∈ ys := (List.dropWhile_sublist Node.isComment).subset (by simp [hdy])
    have hsame : left'.kind = left.kind ∧ left'.children = left.children := by
      rcases htaken with rfl | ⟨r, -, rfl⟩ <;> simp
    intro z hz
    rcases List.mem_append.mp hz with hz | hz
    · exact hx z (List.takeWhile_subset _ hz)
    rw [List.mem_singleton.mp hz]
    refine .mk (.grown hk hs hts h₁ hdx h₂ hdy (hy right hright).self rfl htaken rfl)
      (List.forall_mem_cons.mpr ⟨(hx left hleft).origin_congr hsame.1 hsame.2, List.forall_mem_append.mpr ⟨?_, ?_⟩⟩)
    · exact fun m hm => hy m (List.takeWhile_subset _ hm)
    · exact fun m hm => (hy right hright).child hm

theorem parse?_origin {tree : Node} (h : parse? text = some tree) :
    ∀ n ∈ tree.children, n.All (Node.Origin text) := by
  obtain ⟨tokens, trailing, nodes, ht, hr, rfl⟩ := parse?_reads h
  obtain ⟨mid, -, -, hremarks⟩ := read_lined ht
  exact List.forall_mem_append.mpr ⟨hr.origin topLevel_known topLevel_sound (read_stream ht), hremarks.origin⟩

namespace Node.Origin

variable {n : Node}

theorem received (h : n.Origin text) : ∀ m ∈ n.children, m.role = some .object → m.kind.isPrimary = true := by
  induction h with
  | leaf bare _ => simp [bare]
  | closed _ sound stream inner children =>
    obtain ⟨lo, hi, hlined⟩ := stream.lined
    intro m hm hrole
    rw [children] at hm
    exact absurd hrole (inner.role_ne_object sound.1 hlined m ((List.dropWhile_sublist _).subset hm))
  | @grown n left left' right _ _ _ _ _ xs ys known sound stream first before next behind _ kind taken children ih =>
    obtain ⟨lo, hi, hlined⟩ := stream.lined
    obtain ⟨_, _, hmid⟩ := first.laid hlined
    have hleft : left ∈ xs := (List.dropWhile_sublist Node.isComment).subset (by simp [before])
    have hright : right ∈ ys := (List.dropWhile_sublist Node.isComment).subset (by simp [behind])
    rw [children]
    refine List.forall_mem_cons.mpr ⟨fun hrole => ?_, List.forall_mem_append.mpr ⟨fun m hm hrole => ?_, ih⟩⟩
    · rcases taken with rfl | ⟨r, hr, rfl⟩
      · exact absurd hrole (first.role_ne_object sound hlined _ hleft)
      obtain ⟨-, -, -, hunqualified | ⟨hoperand, hsuffix⟩⟩ := known
      · have hnone := next.gives (fun _ hp => absurd hp Bool.false_ne_true) hunqualified hmid right hright
          (isComment_of_dropWhile behind)
        rw [Kind.isUnqualified, kind, hr] at hnone
        cases hnone
      · have hprimary := first.gives (fun p hp => ?_) ⟨hoperand, hsuffix, trivial⟩ hlined left hleft
          (isComment_of_dropWhile before)
        · rwa [kind_withRole]
        · obtain rfl : p = .switchExpression := by cases p <;> simp_all
          exact rfl
    · exact absurd hrole (next.role_ne_object sound.2.1 hmid m (List.takeWhile_subset _ hm))

theorem holds (h : n.Origin text) : ∀ m ∈ n.children, n.kind.holds m.kind = true := by
  induction h with
  | leaf bare _ => simp [bare]
  | closed known _ stream inner children =>
    obtain ⟨lo, hi, hlined⟩ := stream.lined
    intro m hm
    rw [children] at hm
    exact inner.fits known.2.2.2.2.2 hlined m ((List.dropWhile_sublist _).subset hm)
  | @grown n left left' right _ _ _ _ _ xs ys known _ stream first before next _ _ kind taken children ih =>
    obtain ⟨lo, hi, hlined⟩ := stream.lined
    obtain ⟨_, _, hmid⟩ := first.laid hlined
    obtain ⟨-, -, hfits, -⟩ := known
    have hmem : left ∈ xs := (List.dropWhile_sublist Node.isComment).subset (by simp [before])
    have hleft := first.fits (hfits n.kind) hlined left hmem
    rw [children]
    refine List.forall_mem_cons.mpr ⟨?_, List.forall_mem_append.mpr ⟨fun m hm => ?_, fun m hm => kind ▸ ih m hm⟩⟩
    · rcases taken with rfl | ⟨r, -, rfl⟩
      · exact hleft
      · rwa [kind_withRole]
    · exact next.fits (hfits n.kind).2.1 hmid m (List.takeWhile_subset _ hm)

theorem holds_of_grown {operand suffix : Rule} {right : Node} {mid : List Token} {ys : List Node}
    (known : (Rule.grow operand suffix).Known) (stream : Stream text ts)
    (first : Reads Grammar.java (.grow operand suffix) ts xs mid) (next : Reads Grammar.java suffix mid ys rest)
    (behind : ys.dropWhile Node.isComment = [right]) (holder : Kind) : holder.holds right.kind = true := by
  obtain ⟨lo, hi, hlined⟩ := stream.lined
  obtain ⟨_, _, hmid⟩ := first.laid hlined
  exact next.fits (known.2.2.1 holder).2.1 hmid right ((List.dropWhile_sublist Node.isComment).subset (by simp [behind]))

theorem begins_declarations (h : n.Origin text) (hkind : n.kind = .enumBodyDeclarations) :
    ∃ first rest, n.children = first :: rest ∧ first.kind = .token := by
  cases h with
  | leaf _ kind =>
    rw [hkind] at kind
    cases kind
  | closed known _ stream inner children =>
    obtain ⟨lo, hi, hlined⟩ := stream.lined
    obtain ⟨t, more, nodes, rfl, rfl, -⟩ := inner.begins (known.2.2.2.1 hkind)
    exact ⟨_, _, children.trans (dropWhile_comments hlined.2.1.isComment rfl), rfl⟩
  | grown known _ stream first _ next behind _ kind _ _ =>
    have hfree := holds_of_grown known stream first next behind .token
    rw [kind, hkind] at hfree
    cases hfree

theorem ends_declaration (h : n.Origin text) {word : String} (hkind : n.kind.lastWord? = some word) :
    ∃ front last, n.children = front ++ [last] ∧ last.kind = .token := by
  cases h with
  | leaf _ kind =>
    rw [(Kind.composed_of_lastWord? hkind).1] at kind
    cases kind
  | closed known _ stream inner children =>
    obtain ⟨lo, hi, hlined⟩ := stream.lined
    obtain ⟨t, nodes, rfl, -, -⟩ := inner.ends (known.2.2.2.2.1 word hkind) hlined
    exact ⟨nodes.dropWhile Node.isComment, _, children.trans (dropWhile_ends t.span), rfl⟩
  | grown known _ stream first _ next behind _ kind _ _ =>
    have hfree := holds_of_grown known stream first next behind .token
    rw [kind, (Kind.composed_of_lastWord? hkind).2] at hfree
    cases hfree

end Node.Origin

theorem topLevel_fits : Grammar.topLevel.FitsIn .program := by
  intro s
  dsimp only
  split <;> simp [Grammar.statement, Grammar.importDeclaration, Grammar.packageDeclaration,
    Grammar.moduleDeclaration]

theorem parse?_holds {tree : Node} (h : parse? text = some tree) :
    ∀ n ∈ tree.children, tree.kind.holds n.kind = true := by
  obtain ⟨tokens, trailing, nodes, ht, hr, rfl⟩ := parse?_reads h
  obtain ⟨mid, hlined, -, hremarks⟩ := read_lined ht
  refine List.forall_mem_append.mpr ⟨hr.fits topLevel_fits hlined, fun n hn => ?_⟩
  obtain ⟨kind, span, rfl, hcomment⟩ := hremarks n hn
  cases kind <;> first | rfl | cases hcomment

end MockDialect.Java

namespace MockDialect.Source

open Java

theorem File.read_origin (source : String) {c : Cursor} (h : Cursor.In (File.read source).tree c)
    (hkind : c.kind ≠ .program) : c.node.All (Node.Origin (File.read source).text) := by
  rw [(File.read_sound source).text, File.source_read]
  exact File.all_of_parse? (fun _ => parse?_origin) h hkind

theorem exists_parent_of_kind {f : File} (hf : f.Sound) {c : Cursor} (h : Cursor.In f.tree c)
    (hkind : c.kind ≠ .program) : ∃ d, c.parent? = some d := by
  cases h with
  | root => exact absurd hf.program hkind
  | down => exact ⟨_, rfl⟩

theorem File.read_holds (source : String) {c d : Cursor} (h : Cursor.In (File.read source).tree c)
    (hd : c.parent? = some d) : d.kind.holds c.kind = true := by
  obtain ⟨hup, -, hmem⟩ := h.parent hd
  obtain ⟨tree, broken, htree, he⟩ := File.read_eq source
  rw [he] at hup
  rcases htree with htree | rfl
  · rcases hup.within.cases_child with hroot | ⟨k, hk, hwithin⟩
    · rw [hroot] at hmem
      rw [Cursor.kind, hroot]
      exact parse?_holds htree c.node hmem
    · exact (hwithin.all (parse?_origin htree k hk)).self.holds c.node hmem
  · rw [hup.within.eq_of_leaf rfl] at hmem
    cases hmem

end MockDialect.Source
