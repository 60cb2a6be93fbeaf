import Transplant.Grammar.Pattern
import Transplant.Grammar.Types

/-!
# Expressions

An operation is an operand with the operators behind it that bind stronger than the one in front of
it (`Binding`). Operators of one strength group to the left, exponentiation and assignment to the
right. An object or array in front of an equals sign is read again as a pattern.

The assertions of the typed language have no place in the order of the operators: an operator that
groups to the left has its operand before an assertion begins, so `a && b as C` asserts the whole.
-/

namespace Transplant
namespace Grammar

/-! ## Operators -/

/-- An operator that joins what has been read with an operand. -/
def joined (place : Place) (binding : Binding) (operators : Peg Rule) : Peg Rule :=
  .wrap .binaryExpression (some .left)
    (allOf [.role .operator operators, .role .right (rule (.operation place binding))])

/-- The operators of two operands by their strength; the word `in` ends what stands in the header
of a loop. -/
def binaryOperators (place : Place) : List (Binding × Peg Rule) :=
  [(.conjunction, mark "&&"), (.disjunction, mark "||"), (.equality, anyMark ["===", "!==", "==",
      "!="]),
    (.sum, anyMark ["+", "-"]), (.product, anyMark ["*", "/", "%"]),
    (.relation, anyOf [
      anyMark ["<", "<=", ">", ">="],
      word "instanceof",
      match place with
      | .header => nothing
      | _ => word "in"]),
    (.coalescing, mark "??"), (.power, mark "**"), (.shift, anyMark ["<<", ">>", ">>>"]),
    (.bitAnd, mark "&"), (.bitXor, mark "^"), (.bitOr, mark "|")]

/-- A condition with two branches. Where a function in the first branch would take the colon for
that of its result type, the branch is read again without result types. -/
def ternarySuffix (lang : Language) (place : Place) : Peg Rule :=
  let question : Peg Rule := match lang with
    | .javascript => anyOf [.leaf .token .questionBeforeFraction, mark "?"]
    | .tsx => mark "?"
  let branches := fun inner : Place => allOf [
    .role .consequence (expression inner),
    mark ":",
    .role .alternative (expression place)]
  .wrap .ternaryExpression (some .condition) (allOf [
    question,
    match lang, place with
    | .tsx, .branch => branches .branch
    | .tsx, _ => anyOf [branches .inside, branches .branch]
    | .javascript, _ => branches .inside])

/-- The operators that combine with an assignment. -/
def assigningMarks : List String :=
  ["+=", "-=", "*=", "/=", "%=", "^=", "&=", "|=", ">>=", ">>>=", "<<=", "**=", "&&=", "||=", "??="]

/-- What can stand on the left of an assignment combined with an operator. -/
def adjustable : List Kind :=
  [.memberExpression, .subscriptExpression, .identifier, .parenthesizedExpression,
    .nonNullExpression]

/-- What can stand on the left of an assignment. -/
def assignable : List Kind := adjustable ++ [.undefinedLiteral, .objectPattern, .arrayPattern]

/-- An assignment to what has been read. -/
def assignmentSuffixes (place : Place) : List (Peg Rule) :=
  [allOf [
      .lastIs assignable,
      .wrap .assignmentExpression (some .left) (allOf [mark "=", .role .right (expression place)])],
    allOf [
      .lastIs adjustable,
      .wrap .augmentedAssignmentExpression (some .left) (allOf [
        .role .operator (anyMark assigningMarks),
        .role .right (expression place)])]]

/-- What shows that type arguments have ended and no comparison is meant: something that can follow
a value. -/
def afterTypeArguments (place : Place) : Peg Rule :=
  anyOf [
    match place with
    | .line => .ends .tsx .value
    | _ => nothing,
    anyMark [".", "?.", "[", ")", "]", ",", ";", ":", "?", "==", "===", "!=", "!==", "&&", "||",
      "??", "&", "|", "^", "*", "**", "%", "+", "-", "<=", ">", ">="],
    closeBrace,
    anyWord ("of" :: operatorWords),
    allOf [.unless (.leaf .token .regex), mark "/"],
    allOf [.unless (rule .element), mark "<"],
    allOf [mark "!", anyOf [anyMark [".", "[", "(", ")", "]", ",", ";", ":", "?"], closeBrace]]]

/-- Types between angle brackets behind a value, where a bracket may be part of a longer mark. -/
def valueTypeArguments : Peg Rule :=
  .role .typeArguments
    (.node .typeArguments (allOf [mark "<", endedCommas (typeAt .inside), mark ">"]))

/-- Type arguments behind a value, with or without a call. -/
def typeArgumentsSuffixes (place : Place) : List (Peg Rule) :=
  [.wrap .callExpression (some .callee) (allOf [
      valueTypeArguments,
      .role .arguments (rule .arguments)]),
    .wrap .instantiationExpression none (allOf [
      valueTypeArguments,
      ahead (afterTypeArguments place)])]

/-- What can follow an operand as closely as its own members. -/
def closeSuffixes (lang : Language) (place : Place) : List (Peg Rule) :=
  accessSuffixes lang ++ [
    .wrap .callExpression (some .callee) (.role .arguments (rule .arguments)),
    optionalCallSuffix lang,
    templateSuffix] ++
  (match lang with
    | .javascript => []
    | .tsx => typeArgumentsSuffixes place)

/-- The assertions of the typed language. -/
def assertionSuffixes (place : Place) : List (Peg Rule) :=
  [.wrap .nonNullExpression none (mark "!"),
    .wrap .asExpression none (allOf [
      word "as",
      anyOf [word "const", typeAt place.ofType]]),
    .wrap .satisfiesExpression none (allOf [word "satisfies", typeAt place.ofType])]

/-- What an operand can go on with behind an operator of the given strength. -/
def suffixes (lang : Language) (place : Place) (binding : Binding) : List (Peg Rule) :=
  closeSuffixes lang place ++ assignmentSuffixes place ++
  (if binding == .updating then []
    else [.wrap .updateExpression (some .argument) (.role .operator (anyMark ["++", "--"]))]) ++
  (if lang == .tsx && binding.yieldsAssertion then assertionSuffixes place else []) ++
  ((binaryOperators place).filter fun op => binding.yields op.1).map
    (fun op => joined place op.1 op.2) ++
  (if binding == .loose then [ternarySuffix lang place] else [])

/-- An operand with the operators behind it that bind stronger than the one in front. -/
def operation (lang : Language) (place : Place) (binding : Binding) : Peg Rule :=
  allOf [
    rule (.operand place),
    .many (allOf [unended lang place, anyOf (suffixes lang place binding)])]

/-- Expressions with commas between them. -/
def expressions (place : Place) : Peg Rule :=
  allOf [
    expression place,
    opt
      (.wrap .sequenceExpression none (allOf [
        mark ",",
        expression place,
        .many (allOf [mark ",", expression place])]))]

/-! ## Operands -/

/-- A function written with an arrow. A brace behind the arrow opens a block if it can. -/
def arrow (lang : Language) (place : Place) : Peg Rule :=
  let shorthand : Peg Rule :=
    allOf [openBrace, anyName .token, anyOf [mark ",", closeBrace]]
  .node .arrowFunction (allOf [
    opt (allOf [
      word "async",
      unended lang place,
      ahead (anyOf [name lang .afterName .token, mark "(", exact "<"])]),
    anyOf [
      allOf [.role .parameter (name lang .operand .identifier), mark "=>"],
      allOf [rule (.callSignature (if place == .branch then .branch else .inside)), mark "=>"]],
    .role .body (anyOf [
      rule (.block .value),
      allOf [.unless shorthand, expression place]])])

/-- The result of a generator so far. -/
def yieldExpression (lang : Language) (place : Place) : Peg Rule :=
  .node .yieldExpression (allOf [
    word "yield",
    anyOf [
      allOf [mark "*", expression place],
      opt (allOf [
        unended lang place,
        .unless (anyWord (match lang with
          | .javascript => ["in", "instanceof"]
          | .tsx => operatorWords)),
        expression place])]])

/-- An object made by a constructor, which is read up to its arguments. -/
def newExpression (lang : Language) (place : Place) : Peg Rule :=
  let suffix : Peg Rule :=
    anyOf (accessSuffixes lang ++ [templateSuffix, optionalCallSuffix lang])
  let callee : Peg Rule := allOf [rule (.primary place), .many (allOf [unended lang place, suffix])]
  let arguments : Peg Rule := opt (allOf [unended lang place, .role .arguments (rule .arguments)])
  match lang with
  | .javascript =>
    .node .newExpression (allOf [
      word "new",
      .role .target (anyOf [
        callee,
        allOf [ahead (word "new"), rule (.operand place), .lastIs [.newExpression]]]),
      arguments])
  | .tsx =>
    .node .newExpression (allOf [
      word "new",
      .role .target callee,
      anyOf [
        allOf [unended lang place, valueTypeArguments, arguments],
        allOf [.unless (mark "<"), arguments]]])

/-- The arguments of a call. -/
def arguments : Peg Rule :=
  .node .arguments (allOf [
    mark "(",
    gappyList (anyOf [
      .node .spreadElement (allOf [mark "...", expression .inside]),
      expression .inside]),
    mark ")"])

/-- The function that a name may be given to. -/
def functionExpression (lang : Language) (place : Place) : Peg Rule :=
  .node .functionExpression (allOf [
    opt (allOf [word "async", unended lang place]),
    word "function",
    opt (allOf [mark "*", .become .generatorFunction]),
    opt (.role .name (name lang .binder .identifier)),
    rule (.callSignature .inside),
    .role .body (rule (.block .value))])

/-- The name of a class, which in the typed language is the name of a type. -/
def className : Language → Peg Rule
  | .javascript => .role .name (name .javascript .className .identifier)
  | .tsx => .role .name (name .tsx .className .typeIdentifier)

/-- A class used as a value. -/
def classExpression (lang : Language) : Peg Rule :=
  .node .classExpression (allOf [
    .many (decorator lang),
    word "class",
    opt (className lang),
    rule .classRest])

/-- The words that are expressions of their own. -/
def wordExpression : Peg Rule :=
  anyOf [
    wordAs .thisExpression "this",
    wordAs .superExpression "super",
    wordAs .nullLiteral "null",
    wordAs .trueLiteral "true",
    wordAs .falseLiteral "false",
    wordAs .undefinedLiteral "undefined"]

/-- An expression that is complete in itself. -/
def primary (lang : Language) (place : Place) : Peg Rule :=
  anyOf [
    arrow lang place,
    functionExpression lang place,
    .node .metaProperty (allOf [word "new", mark ".", word "target"]),
    name lang .operand .identifier,
    .leaf .number .number,
    .leaf .string .string,
    rule .parenthesized,
    allOf [rule .object, .unless (mark "=")],
    allOf [rule .objectPattern, ahead (mark "=")],
    allOf [rule .array, .unless (mark "=")],
    allOf [rule .arrayPattern, ahead (mark "=")],
    rule .template,
    .leaf .regex .regex,
    wordExpression,
    .node .metaProperty (allOf [word "import", mark ".", word "meta"]),
    allOf [wordAs .importCallee "import", ahead (anyMark ["(", "."])],
    classExpression lang]

/-- What operators can stand before or behind. -/
def operand (lang : Language) (place : Place) : Peg Rule :=
  anyOf [
    .node .unaryExpression (allOf [
      .role .operator (anyOf [
        anyMark ["!", "~", "-", "+"],
        anyWord ["typeof", "void", "delete"]]),
      .role .argument (rule (.operation place .unary))]),
    .node .updateExpression (allOf [
      .role .operator (anyMark ["++", "--"]),
      .role .argument (rule (.operation place .updating))]),
    .node .awaitExpression (allOf [word "await", rule (.operation place .awaiting)]),
    yieldExpression lang place,
    newExpression lang place,
    allOf [
      .leaf .privatePropertyIdentifier .privateName,
      joined place .relation (word "in")],
    typed lang
      (.node .assignmentExpression (allOf [
        word "using",
        .role .left (anyOf [rule .parenthesized, rule .pattern]),
        mark "=",
        .role .right (expression place)])),
    rule (.primary place),
    rule .element]

/-! ## Objects, arrays and other brackets -/

/-- An expression in parentheses. -/
def parenthesized (lang : Language) : Peg Rule :=
  .node .parenthesizedExpression (match lang with
    | .javascript => allOf [mark "(", rule (.expressions .inside), mark ")"]
    | .tsx =>
      allOf [
        mark "(",
        anyOf [
          allOf [rule (.expressions .inside), mark ")"],
          allOf [expression .inside, .role .typing (rule (.typeClause .inside)), mark ")"]]])

/-- The key of a property. -/
def propertyName : Peg Rule :=
  anyOf [
    anyName .propertyIdentifier,
    .leaf .privatePropertyIdentifier .privateName,
    .leaf .string .string,
    .leaf .number .number,
    .node .computedPropertyName (allOf [mark "[", expression .inside, mark "]"])]

/-- The word `static` in front of a key of the untyped language, which is no key itself. At the end
of a line the word `get` behind it belongs to it. -/
def staticWord (place : Place) (next : Peg Rule) : Peg Rule :=
  anyOf [
    .leaf .token (.wordsBeforeBreak "static".toList "get".toList),
    modifier .javascript place ["static"] next]

/-- The words and marks in front of the name of a method, each of which may be missing. -/
def methodModifiers (lang : Language) (place : Place) : List (Peg Rule) :=
  let starred : Peg Rule := anyOf [keyStart, mark "*"]
  let optional := fun words : List String => modifier lang place words starred
  let leading : List (Peg Rule) := match lang with
    | .javascript => [staticWord place starred, optional ["async"]]
    | .tsx =>
      [["public", "private", "protected"], ["static"], ["override"], ["readonly"], ["async"]].map
        optional
  leading ++ [anyOf [mark "*", modifier lang place ["get", "set"] keyStart]]

/-- A method with what may stand in front of its name. -/
def method (lang : Language) (place : Place) : Peg Rule :=
  allOf (methodModifiers lang place ++ [
    .role .name (rule .propertyName),
    unended lang place,
    optTyped lang (mark "?"),
    unended lang place,
    rule (.callSignature place),
    .role .body (rule (.block .plain))])

/-- An object. -/
def object (lang : Language) : Peg Rule :=
  let decorators : Peg Rule := match lang with
    | .javascript => .many (decorator lang)
    | .tsx => .empty
  .node .object (allOf [
    openBrace,
    gappyList (anyOf [
      .node .spreadElement (allOf [mark "...", expression .inside]),
      .node .methodDefinition (allOf [decorators, rule (.method .inside)]),
      .node .pair (allOf [
        .role .key (rule .propertyName),
        mark ":",
        .role .value (expression .inside)]),
      anyName .shorthandPropertyIdentifier]),
    closeBrace])

/-- An array. -/
def array : Peg Rule :=
  .node .array (allOf [
    mark "[",
    gappyList (anyOf [
      .node .spreadElement (allOf [mark "...", expression .inside]),
      expression .inside]),
    mark "]"])

/-- A template with the expressions in it. -/
def template : Peg Rule :=
  quasi .templateString .templateSubstitution [.leaf .escapeSequence .templateEscape]
    (rule (.expressions .inside))

end Grammar
end Transplant
