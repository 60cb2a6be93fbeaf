import Transplant.Grammar.Expression

/-!
# Classes

What a class inherits from, and its members. The words in front of a member have a fixed order, and
each is the name of the member itself if the line or the member ends behind it.
-/

namespace Transplant
namespace Grammar

/-- A block that runs when the class is made. -/
def staticBlock (lang : Language) : Peg Rule :=
  .node .classStaticBlock (allOf [
    word "static",
    unended lang .typeLine,
    .role .body (rule (.block .plain))])

/-- The value of a field, and where the field ends. -/
def fieldEnd (lang : Language) (others : List (Peg Rule)) : Peg Rule :=
  anyOf [
    allOf [
      mark "=",
      .role .value (expression .line),
      anyOf (terminator lang .value :: others)],
    anyOf (terminator lang .plain :: others)]

/-- A member of a class of the untyped language. -/
def untypedMember : Peg Rule :=
  anyOf [
    staticBlock .javascript,
    allOf [
      .node .methodDefinition (allOf [
        .many (decorator .javascript),
        rule (.method .typeLine)]),
      opt (mark ";")],
    .node .fieldDefinition (allOf [
      .many (decorator .javascript),
      staticWord .typeLine keyStart,
      .role .property (rule .propertyName),
      fieldEnd .javascript []])]

/-- The words in front of a field of the typed language. -/
def fieldModifiers : Peg Rule :=
  let next : Peg Rule := keyStart
  let optional := fun w : String => modifier .tsx .typeLine [w] next
  let needed := fun w : String => allOf [word w, unended .tsx .typeLine, ahead next]
  let access : Peg Rule := anyWord ["public", "private", "protected"]
  let accessed : Peg Rule := allOf [access, unended .tsx .typeLine, ahead next]
  allOf [
    anyOf [
      allOf [needed "declare", opt accessed],
      allOf [accessed, optional "declare"],
      .empty],
    anyOf [
      allOf [needed "static", optional "override", optional "readonly"],
      allOf [needed "override", optional "readonly"],
      allOf [needed "abstract", optional "readonly"],
      allOf [needed "readonly", optional "abstract"],
      needed "accessor",
      .unless (anyWord ["abstract", "accessor"])]]

/-- A member of a class of the typed language. -/
def typedMember : Peg Rule :=
  let comma : List (Peg Rule) := [mark ","]
  let access : Peg Rule := modifier .tsx .typeLine ["public", "private", "protected"] keyStart
  let concrete : Peg Rule := .unless (allOf [access, anyWord ["abstract", "accessor"]])
  anyOf [
    staticBlock .tsx,
    allOf [
      .many (decorator .tsx),
      concrete,
      .node .methodDefinition (rule (.method .typeLine)),
      opt (terminator .tsx .plain)],
    allOf [
      concrete,
      .node .methodSignature methodSignature,
      anyOf ([.ends .tsx .signature, mark ";"] ++ comma)],
    allOf [
      .node .methodSignature (allOf [
        access,
        word "abstract",
        modifier .tsx .typeLine ["override"] (anyOf [keyStart, mark "*"]),
        anyOf [mark "*", modifier .tsx .typeLine ["get", "set"] keyStart],
        .role .name (rule .propertyName),
        unended .tsx .typeLine,
        opt (mark "?"),
        unended .tsx .typeLine,
        rule (.callSignature .typeLine)]),
      anyOf (terminator .tsx .plain :: comma)],
    allOf [indexSignature, anyOf (terminator .tsx .plain :: comma)],
    .node .fieldDefinition (allOf [
      .many (decorator .tsx),
      fieldModifiers,
      .role .property (rule .propertyName),
      opt (allOf [unended .tsx .typeLine, anyMark ["?", "!"]]),
      opt (allOf [unended .tsx .typeLine, .role .typing (rule (.typeClause .typeLine))]),
      fieldEnd .tsx comma])]

/-- A member of a class. -/
def classMember : Language → Peg Rule
  | .javascript => untypedMember
  | .tsx => typedMember

/-- One class that another inherits from, in the typed language. Type arguments in front of the body
belong to it and compare nothing. -/
def parentClass : Peg Rule :=
  let follows : Peg Rule := anyOf [openBrace, mark ",", word "implements"]
  anyOf [
    allOf [
      .role .value (allOf [
        rule (.primary .inside),
        .many (anyOf (accessSuffixes .tsx ++ [
          .wrap .callExpression (some .callee) (.role .arguments (rule .arguments)),
          optionalCallSuffix .tsx,
          templateSuffix]))]),
      .role .typeArguments (rule .typeArguments),
      ahead follows],
    .role .value (expression .inside)]

/-- What a class inherits from. -/
def heritage : Language → Peg Rule
  | .javascript => .node .classHeritage (allOf [word "extends", expression .inside])
  | .tsx =>
    let promised : Peg Rule :=
      .node .implementsClause (allOf [word "implements", commas (typeAt .inside)])
    let inherited : Peg Rule :=
      .node .extendsClause (allOf [word "extends", commas parentClass])
    .node .classHeritage (anyOf [allOf [inherited, opt promised], promised])

/-- A class from its type parameters on. -/
def classRest (lang : Language) : Peg Rule :=
  allOf [
    optTyped lang (.role .typeParameters (rule .typeParameters)),
    opt (heritage lang),
    .role .body
      (.node .classBody (allOf [
        openBrace,
        .many (anyOf [.role .member (classMember lang), mark ";"]),
        closeBrace]))]

end Grammar
end Transplant
