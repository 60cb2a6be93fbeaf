/-!
# What a node of a source tree is, and what it is for its parent

`Kind` lists the constructs of JavaScript with markup and of its typed variant; `Kind.token` is a
keyword, operator or mark, told apart by its text. `Role` is the part that a child plays in its
parent: the `name` of a declaration, the `left` of an assignment.
-/

namespace Transplant

/-- The constructs that a source tree is made of. -/
inductive Kind where
  /-- A keyword, operator or mark; its text says which. -/
  | token
  | program
  | comment
  /-- A line that a comment of a web page opens or closes. -/
  | pageComment
  | hashBang
  -- modules
  | exportStatement
  | exportClause
  | exportSpecifier
  | namespaceExport
  | importStatement
  | importClause
  | importSpecifier
  | namedImports
  | namespaceImport
  | importAttribute
  | importRequireClause
  | importAlias
  -- statements
  | expressionStatement
  | variableDeclaration
  | lexicalDeclaration
  | usingDeclaration
  | variableDeclarator
  | statementBlock
  | ifStatement
  | elseClause
  | switchStatement
  | switchBody
  | switchCase
  | switchDefault
  | forStatement
  | forInStatement
  | whileStatement
  | doStatement
  | tryStatement
  | catchClause
  | finallyClause
  | withStatement
  | breakStatement
  | continueStatement
  | debuggerStatement
  | returnStatement
  | throwStatement
  | emptyStatement
  | labeledStatement
  | statementIdentifier
  -- functions and classes
  | functionDeclaration
  | generatorFunctionDeclaration
  | functionExpression
  | generatorFunction
  | arrowFunction
  | functionSignature
  | formalParameters
  | requiredParameter
  | optionalParameter
  | classDeclaration
  | abstractClassDeclaration
  | classExpression
  | classHeritage
  | extendsClause
  | implementsClause
  | classBody
  | methodDefinition
  | fieldDefinition
  | classStaticBlock
  | accessModifier
  | decorator
  -- patterns
  | assignmentPattern
  | objectPattern
  | arrayPattern
  | pairPattern
  | restPattern
  | objectAssignmentPattern
  | shorthandPropertyIdentifierPattern
  -- expressions
  | identifier
  | propertyIdentifier
  | privatePropertyIdentifier
  | shorthandPropertyIdentifier
  | thisExpression
  | superExpression
  | nullLiteral
  | trueLiteral
  | falseLiteral
  | undefinedLiteral
  | number
  | string
  | templateString
  | templateFragment
  | escapeSequence
  | templateSubstitution
  | regex
  | object
  | array
  | pair
  | spreadElement
  | computedPropertyName
  | parenthesizedExpression
  | sequenceExpression
  | callExpression
  | arguments
  | newExpression
  | memberExpression
  | subscriptExpression
  | optionalChain
  | assignmentExpression
  | augmentedAssignmentExpression
  | ternaryExpression
  | binaryExpression
  | unaryExpression
  | updateExpression
  | awaitExpression
  | yieldExpression
  | metaProperty
  | importCallee
  | asExpression
  | satisfiesExpression
  | nonNullExpression
  | instantiationExpression
  -- markup
  | jsxElement
  | jsxOpeningElement
  | jsxClosingElement
  | jsxSelfClosingElement
  | jsxAttribute
  | jsxExpression
  | jsxText
  | jsxNamespaceName
  | characterReference
  -- types
  | typeClause
  | typePredicate
  | asserts
  | typeIdentifier
  | nestedTypeIdentifier
  | predefinedType
  | genericType
  | typeArguments
  | typeParameters
  | typeParameter
  | objectType
  | interfaceBody
  | propertySignature
  | methodSignature
  | indexSignature
  | callSignature
  | constructSignature
  | arrayType
  | tupleType
  | unionType
  | intersectionType
  | functionType
  | constructorType
  | parenthesizedType
  | literalType
  | templateLiteralType
  | templateType
  | typeQuery
  | indexTypeQuery
  | lookupType
  | conditionalType
  | inferType
  | readonlyType
  | optionalType
  | restType
  | thisType
  | maybeType
  | existentialType
  | interfaceDeclaration
  | extendsTypeClause
  | typeAliasDeclaration
  | enumDeclaration
  | enumBody
  | enumAssignment
  | ambientDeclaration
  | internalModule
  | moduleDeclaration
deriving DecidableEq, Repr, Inhabited

/-- The part that a node plays in its parent. -/
inductive Role where
  | name
  | alias
  | source
  | declaration
  | value
  | left
  | right
  | operator
  | argument
  | callee
  | arguments
  | object
  | property
  | index
  | chain
  | body
  | parameter
  | parameters
  | pattern
  | condition
  | consequence
  | alternative
  | key
  | typing
  | typeArguments
  | typeParameters
  | returnType
  | openTag
  | closeTag
  | attr
  | member
  | handler
  | finalizer
  | label
  | kind
  | initializer
  | increment
  | target
deriving DecidableEq, Repr

namespace Kind

/-- The functions with a scope of their own; a method counts as part of its object or class. -/
def isFunction : Kind → Bool
  | .arrowFunction | .functionExpression | .functionDeclaration
  | .generatorFunction | .generatorFunctionDeclaration => true
  | _ => false

/-- Markup: an element, with or without a closing tag. -/
def isMarkup : Kind → Bool
  | .jsxElement | .jsxSelfClosingElement => true
  | _ => false

/-- The tags that an element name can stand in. -/
def isTag : Kind → Bool
  | .jsxOpeningElement | .jsxClosingElement | .jsxSelfClosingElement => true
  | _ => false

/-- The tags that open an element. -/
def opensElement : Kind → Bool
  | .jsxOpeningElement | .jsxSelfClosingElement => true
  | _ => false

/-- Parentheses and the typed wrappers that leave the value of an expression alone. -/
def isWrapper : Kind → Bool
  | .parenthesizedExpression | .asExpression | .satisfiesExpression | .nonNullExpression => true
  | _ => false

end Kind
end Transplant
