import Transplant.Grammar.Rule

/-!
# Markup

Elements with their tags, attributes and children. A tag is read once: whether it stands alone or
opens an element shows at its end. A closing tag need not name the element that it closes.
-/

namespace Transplant
namespace Grammar

/-- The name of a tag or an attribute. -/
def tagName (lang : Language) (kind : Kind) : Peg Rule :=
  .leaf kind (.tagName (Spot.binder.barred lang))

/-- A name with a namespace in front, as in `svg:rect`. -/
def namespacedName (lang : Language) : Peg Rule :=
  .node .jsxNamespaceName (allOf [tagName lang .identifier, mark ":", tagName lang .identifier])

/-- A plain name and the members behind it, in which no name is hyphenated. -/
def memberName (lang : Language) : Peg Rule :=
  let member : Peg Rule := .wrap .memberExpression (some .object) (allOf [
    mark ".",
    .role .property (name lang .binder .propertyIdentifier)])
  allOf [name lang .binder .identifier, ahead (mark "."), .many member]

/-- The name of an element: plain, with a namespace, or the member of an object. -/
def elementName (lang : Language) : Peg Rule :=
  anyOf [namespacedName lang, memberName lang, tagName lang .identifier]

/-- An opening tag, or an element that is a single tag. In the typed language the tag of an element
without a name may also stand alone, and a word with a meaning for type parameters names none. -/
def openingTag (lang : Language) : Peg Rule :=
  let closing : Peg Rule :=
    anyOf [allOf [exact "/>", .become .jsxSelfClosingElement], exact ">"]
  let named : Peg Rule := allOf [
    .role .name (elementName lang),
    optTyped lang (.role .typeArguments (rule .typeArguments)),
    .many (.role .attr (rule .markupAttribute)),
    closing]
  match lang with
  | .javascript => .node .jsxOpeningElement (allOf [exact "<", anyOf [named, exact ">"]])
  | .tsx =>
    let generic : Peg Rule :=
      anyOf [word "const", allOf [anyName .identifier, word "extends"]]
    .node .jsxOpeningElement (allOf [
      exact "<",
      anyOf [allOf [.unless generic, named], closing]])

/-- What stands between the tags of an element. -/
def elementChild : Peg Rule :=
  anyOf [
    .leaf .jsxText .markupText,
    .leaf .characterReference .characterReference,
    rule .element,
    rule .markupExpression]

/-- A closing tag. -/
def closingTag (lang : Language) : Peg Rule :=
  .node .jsxClosingElement (allOf [exact "</", opt (.role .name (elementName lang)), exact ">"])

/-- An element. -/
def element (lang : Language) : Peg Rule :=
  allOf [
    openingTag lang,
    anyOf [
      .lastIs [.jsxSelfClosingElement],
      allOf [
        .lastIs [.jsxOpeningElement],
        .wrap .jsxElement (some .openTag) (allOf [
          .many elementChild,
          .role .closeTag (closingTag lang)])]]]

/-- An expression in braces, which may be empty or a spread. -/
def markupExpression : Peg Rule :=
  .node .jsxExpression (allOf [
    openBrace,
    opt (anyOf [
      .node .spreadElement (allOf [mark "...", expression .inside]),
      rule (.expressions .inside)]),
    closeBrace])

/-- An attribute with or without a value, or a spread in braces. -/
def markupAttribute (lang : Language) : Peg Rule :=
  anyOf [
    rule .markupExpression,
    .node .jsxAttribute (allOf [
      anyOf [namespacedName lang, tagName lang .propertyIdentifier],
      opt (allOf [
        exact "=",
        anyOf [.leaf .string .attributeString, rule .markupExpression, rule .element]])])]

end Grammar
end Transplant
