import Transplant.Grammar.Declaration

/-!
# Imports and exports

What a module takes from others and gives to them. In the typed language the words `type` and
`typeof` may stand in front of what is imported or exported; they are names themselves only where
nothing that they could stand in front of follows.
-/

namespace Transplant
namespace Grammar

/-- The module behind `from`. -/
def fromClause : Peg Rule := allOf [word "from", .role .source (.leaf .string .string)]

/-- What an export can be called. -/
def exportName : Language → Peg Rule
  | .javascript =>
    anyOf [
      name .javascript .binder .identifier,
      .leaf .string .string,
      word "default"]
  | .tsx => anyOf [anyName .identifier, .leaf .string .string]

/-! ## Exports -/

/-- The names that are exported. -/
def exportClause (lang : Language) : Peg Rule :=
  let specifier : Peg Rule := allOf [
    .role .name (exportName lang),
    opt (allOf [word "as", .role .alias (exportName lang)])]
  let kinds : List String := ["type", "typeof"]
  .node .exportClause (allOf [
    openBrace,
    commaList
      (.node .exportSpecifier (match lang with
        | .javascript => specifier
        | .tsx => anyOf [
            allOf [anyWord kinds, specifier],
            allOf [.unless (anyWord kinds), specifier]])),
    closeBrace])

/-- What is exported under the name of the module itself. -/
def defaultExport (lang : Language) : Peg Rule :=
  allOf [
    word "default",
    anyOf [
      .role .declaration (rule (.declaration .value)),
      allOf [
        match lang with
        | .javascript => .unless disposing
        | .tsx => .unless (anyWord ["abstract", "const", "enum", "interface", "var"]),
        .role .value (expression .line),
        terminator lang .value]]]

/-- What can follow the word `export`. -/
def exported (lang : Language) : Peg Rule :=
  anyOf [
    allOf [mark "*", fromClause, terminator lang .plain],
    allOf [
      .node .namespaceExport (allOf [mark "*", word "as", exportName lang]),
      fromClause,
      terminator lang .plain],
    allOf [
      optTyped lang (allOf [word "type", ahead openBrace]),
      exportClause lang,
      opt fromClause,
      terminator lang .plain],
    defaultExport lang,
    typed lang (allOf [mark "=", expression .line, terminator lang .value]),
    typed lang (allOf [
      word "as",
      word "namespace",
      anyName .identifier,
      terminator lang .plain]),
    .role .declaration (rule (.declaration .plain))]

/-- An export. The word is a name of its own if the line ends behind it. -/
def exportStatement (lang : Language) : Peg Rule :=
  .node .exportStatement (anyOf [
    allOf [word "export", unended lang .line, exported lang],
    allOf [
      decorator lang,
      .many (decorator lang),
      word "export",
      anyOf [defaultExport lang, .role .declaration (rule (.declaration .plain))]]])

/-- The word `export` with something behind it that shows that an export is meant. -/
def leadsExport (lang : Language) : Peg Rule :=
  let words : List String := ["default", "function", "async", "class", "const", "let", "var"]
  allOf [
    word "export",
    unended lang .line,
    anyOf [
      anyMark ["*", "@"],
      openBrace,
      anyWord words,
      typed lang (anyOf [
        mark "=",
        anyWord ["abstract", "as", "declare", "enum", "import", "interface", "module", "namespace",
          "type"]])]]

/-! ## Imports -/

/-- The name of one thing that is imported, and what it is called here. -/
def importedName : Language → Peg Rule
  | .javascript =>
    anyOf [
      allOf [
        .role .name (exportName .javascript),
        word "as",
        .role .alias (name .javascript .binder .identifier)],
      .role .name (name .javascript .binder .identifier)]
  | .tsx =>
    anyOf [
      allOf [
        .role .name (exportName .tsx),
        word "as",
        .role .alias (anyName .identifier)],
      .role .name (anyName .identifier)]

/-- The names that are imported. Behind `type` the word `as` always renames. -/
def namedImports (lang : Language) : Peg Rule :=
  .node .namedImports (allOf [
    openBrace,
    commaList
      (.node .importSpecifier (match lang with
        | .javascript => importedName .javascript
        | .tsx => anyOf [
            allOf [
              anyWord ["type", "typeof"],
              .unless (anyOf [word "as", mark ",", closeBrace]),
              importedName .tsx],
            allOf [.unless (word "typeof"), importedName .tsx]])),
    closeBrace])

/-- All that a module exports, under one name. -/
def namespaceImport (lang : Language) : Peg Rule :=
  .node .namespaceImport (allOf [mark "*", word "as", name lang .binder .identifier])

/-- What is imported, where `first` reads the name for the module itself. -/
def importClause (lang : Language) (first : Peg Rule) : Peg Rule :=
  .node .importClause (anyOf [
    namespaceImport lang,
    namedImports lang,
    allOf [first, opt (allOf [mark ",", anyOf [namespaceImport lang, namedImports lang]])]])

/-- A module taken whole, in the older way. -/
def importRequireClause : Peg Rule :=
  .node .importRequireClause (allOf [
    .unless (anyWord ["type", "typeof"]),
    anyName .identifier,
    mark "=",
    word "require",
    mark "(",
    .role .source (.leaf .string .string),
    mark ")"])

/-- What can follow the word `import`. -/
def imported : Language → Peg Rule
  | .javascript =>
    anyOf [
      allOf [importClause .javascript (name .javascript .binder .identifier), fromClause],
      .role .source (.leaf .string .string)]
  | .tsx =>
    let source : Peg Rule := .role .source (.leaf .string .string)
    anyOf [
      allOf [
        anyWord ["type", "typeof"],
        .unless (allOf [word "from", word "from"]),
        anyOf [
          allOf [importClause .tsx (anyName .identifier), fromClause],
          importRequireClause,
          source]],
      allOf [
        .unless (word "typeof"),
        anyOf [
          allOf [importClause .tsx (anyName .identifier), fromClause],
          importRequireClause,
          source]]]

/-- An import. -/
def importStatement (lang : Language) : Peg Rule :=
  .node .importStatement (allOf [
    word "import",
    imported lang,
    opt
      (.node .importAttribute (allOf [unended lang .typeLine, word "with", rule .object])),
    terminator lang .plain])

end Grammar
end Transplant
