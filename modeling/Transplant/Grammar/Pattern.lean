import Transplant.Grammar.Rule

/-!
# Patterns and parameters

What can stand on the left of an assignment or between the parentheses of a function.
-/

namespace Transplant
namespace Grammar

/-- The property behind a dot. -/
def property : Peg Rule :=
  .role .property (anyOf [
    .leaf .privatePropertyIdentifier .privateName,
    anyName .propertyIdentifier])

/-- The mark that asks whether there is anything to go on with. -/
def optionalChain (lang : Language) : Peg Rule :=
  .role .chain (.node .optionalChain (match lang with
    | .javascript => allOf [.unless (.leaf .token .questionBeforeFraction), mark "?."]
    | .tsx => mark "?."))

/-- A member or an element of what stands in front. -/
def accessSuffixes (lang : Language) : List (Peg Rule) :=
  [.wrap .memberExpression (some .object) (allOf [
      anyOf [mark ".", optionalChain lang],
      property]),
    .wrap .subscriptExpression (some .object) (allOf [
      opt (optionalChain lang),
      mark "[",
      .role .index (rule (.expressions .inside)),
      mark "]"])]

/-- The kinds of expressions that are complete in themselves. -/
def primaryKinds : List Kind :=
  [.subscriptExpression, .memberExpression, .parenthesizedExpression, .identifier,
    .undefinedLiteral, .thisExpression, .superExpression, .number, .string, .templateString, .regex,
    .trueLiteral, .falseLiteral, .nullLiteral, .object, .array, .functionExpression, .arrowFunction,
    .generatorFunction, .classExpression, .metaProperty, .callExpression, .nonNullExpression]

/-- A template behind the function that reads it. -/
def templateSuffix : Peg Rule :=
  allOf [
    .lastIs (.newExpression :: primaryKinds),
    .wrap .callExpression (some .callee) (.role .arguments (rule .template))]

/-- A call if there is anything to call. -/
def optionalCallSuffix (lang : Language) : Peg Rule :=
  allOf [
    .lastIs primaryKinds,
    .wrap .callExpression (some .callee) (allOf [
      optionalChain lang,
      optTyped lang (.role .typeArguments (rule .typeArguments)),
      .role .arguments (rule .arguments)])]

/-- The default behind a pattern. -/
def defaultOf (kind : Kind) : Peg Rule :=
  .wrap kind (some .left) (allOf [mark "=", .role .right (expression .inside)])

/-- A member or element of any expression. -/
def reachedTarget (lang : Language) : Peg Rule :=
  allOf [
    rule (.operand .inside),
    .many (anyOf (accessSuffixes lang ++ [
      templateSuffix,
      optionalCallSuffix lang,
      .wrap .callExpression (some .callee) (.role .arguments (rule .arguments)),
      typed lang (.wrap .nonNullExpression none (mark "!"))])),
    .lastIs [.memberExpression, .subscriptExpression, .nonNullExpression]]

/-- A target without the three dots: a pattern, a name, or a member of something. -/
def target (lang : Language) : Peg Rule :=
  let goesOn : Peg Rule := anyOf [
    anyMark [".", "?.", "[", "("],
    .leaf .token (.exact [backquoteChar]),
    typed lang (mark "!")]
  allOf [
    anyOf [
      allOf [
        anyOf [
          rule .objectPattern,
          rule .arrayPattern,
          name lang .operand .identifier,
          wordAs .undefinedLiteral "undefined"],
        .unless goesOn],
      reachedTarget lang]]

/-- A pattern. -/
def pattern (lang : Language) : Peg Rule :=
  anyOf [.node .restPattern (allOf [mark "...", target lang]), target lang]

/-- A pattern with an optional default. -/
def patternWithDefault : Peg Rule := allOf [rule .pattern, opt (defaultOf .assignmentPattern)]

/-- A pattern for the members of an object. -/
def objectPattern : Peg Rule :=
  .node .objectPattern (allOf [
    openBrace,
    gappyList (anyOf [
      .node .restPattern (allOf [
        mark "...",
        .unless (mark "..."),
        rule .pattern]),
      .node .pairPattern (allOf [
        .role .key (rule .propertyName),
        mark ":",
        .role .value patternWithDefault]),
      allOf [
        anyName .shorthandPropertyIdentifierPattern,
        opt (defaultOf .objectAssignmentPattern)],
      allOf [
        anyOf [rule .objectPattern, rule .arrayPattern],
        defaultOf .objectAssignmentPattern]]),
    closeBrace])

/-- A pattern for the elements of an array. -/
def arrayPattern : Peg Rule :=
  .node .arrayPattern (allOf [mark "[", gappyList patternWithDefault, mark "]"])

/-- What is called or named behind the sign of a decorator. -/
def decorated (lang : Language) : Peg Rule :=
  allOf [
    name lang .binder .identifier,
    .many
      (.wrap .memberExpression (some .object) (allOf [
        mark ".",
        .role .property (name lang .binder .propertyIdentifier)])),
    opt
      (.wrap .callExpression (some .callee) (allOf [
        optTyped lang (.role .typeArguments (rule .typeArguments)),
        .role .arguments (rule .arguments)]))]

/-- A decorator. -/
def decorator (lang : Language) : Peg Rule :=
  .node .decorator (allOf [
    mark "@",
    anyOf [
      decorated lang,
      typed lang
        (.node .parenthesizedExpression (allOf [mark "(", decorated lang, mark ")"]))]])

/-- A parameter: in the typed language always a node of its own. -/
def parameter : Language → Peg Rule
  | .javascript => patternWithDefault
  | .tsx =>
    let next : Peg Rule := anyOf [anyName .token, openBrace, anyMark ["[", "..."]]
    let marked := fun words : List String => opt (allOf [anyWord words, ahead next])
    .node .requiredParameter (allOf [
      .many (decorator .tsx),
      marked ["public", "private", "protected"],
      marked ["override"],
      marked ["readonly"],
      .role .pattern (anyOf [
        rule .pattern,
        wordAs .thisExpression "this"]),
      opt (allOf [mark "?", .become .optionalParameter]),
      opt (.role .typing (rule (.typeClause .inside))),
      opt (allOf [mark "=", .role .value (expression .inside)])])

/-- Parameters in parentheses. -/
def parameters (lang : Language) : Peg Rule :=
  .node .formalParameters (allOf [mark "(", opt (endedCommas (parameter lang)), mark ")"])

end Grammar
end Transplant
