import Transplant.Grammar.ClassBody

/-!
# Declarations

Variables, functions, classes, and the declarations of the typed language. A function or class at
the beginning of a statement is a declaration, unless what follows it can only go on with a value.
-/

namespace Transplant
namespace Grammar

/-- Parameters, with what the typed language puts around them. In the branch of a condition no
result type follows them. -/
def callSignature (lang : Language) (place : Place) : Peg Rule :=
  allOf [
    optTyped lang (.role .typeParameters (rule .typeParameters)),
    .role .parameters (rule .parameters),
    match lang, place with
    | .tsx, .inside => opt (.role .returnType (resultClause .inside))
    | .tsx, .typeLine => opt (.role .returnType (resultClause .typeLine))
    | _, _ => .empty]

/-- A block, with the end of the line behind it. -/
def block (lang : Language) (ending : Ending) : Peg Rule :=
  .node .statementBlock (allOf [
    openBrace,
    .many (anyOf [.leaf .pageComment .pageComment, rule (.statement false)]),
    closeBrace,
    opt (.ends lang ending)])

/-- What follows a value and begins no statement. -/
def goesOnWithValue (lang : Language) : Peg Rule :=
  anyOf [
    allOf [.unless (.leaf .token .number), mark "."],
    anyMark (["?.", ",", "?", "=", "*", "**", "%", "==", "===", "!=", "!==", "<=", ">", ">=", "<<",
      ">>", ">>>", "&&", "||", "??", "&", "|", "^"] ++ assigningMarks.filter (· != "/=")),
    allOf [
      unended lang .line,
      anyWord (match lang with
        | .javascript => ["in", "instanceof"]
        | .tsx => operatorWords)]]

/-! ## Variables -/

/-- One variable of a declaration, whose name stands at the given spot. -/
def variableDeclarator (lang : Language) (spot : Spot) : Peg Rule :=
  let plain : Peg Rule := allOf [
    .role .name (anyOf [rule .objectPattern, rule .arrayPattern, name lang spot .identifier]),
    optTyped lang (allOf [
      unended lang .typeLine,
      .role .typing (rule (.typeClause .typeLine))]),
    opt (allOf [mark "=", .role .value (expression .line)])]
  .node .variableDeclarator (match lang with
    | .javascript => plain
    | .tsx =>
      anyOf [
        allOf [
          .role .name (name lang spot .identifier),
          unended lang .typeLine,
          mark "!",
          .role .typing (rule (.typeClause .typeLine))],
        plain])

/-- Variables with commas between them up to the end of their declaration. -/
def declarators (lang : Language) (spot : Spot) : Peg Rule :=
  allOf [
    variableDeclarator lang spot,
    .many (allOf [mark ",", variableDeclarator lang .binder]),
    anyOf [
      allOf [.lastHas .value, terminator lang .value],
      allOf [.unless (.lastHas .value), terminator lang .plain]]]

/-- Variables of a block or of a function. In the header of a loop no line ends behind `let`. -/
def bindings (lang : Language) (inHeader : Bool) : Peg Rule :=
  anyOf [
    .node .lexicalDeclaration (anyOf [
      allOf [.role .kind (word "const"), declarators lang .afterConst],
      allOf [
        .role .kind (word "let"),
        if inHeader then .empty else unended lang .line,
        declarators lang (if inHeader && lang == .tsx then .inHeader else .afterName)]]),
    .node .variableDeclaration (allOf [word "var", declarators lang .binder])]

/-- The words in front of variables that are disposed of at the end of their block. Where a
statement can begin they have no other meaning. -/
def disposing : Peg Rule := allOf [opt (word "await"), .role .kind (word "using")]

/-- Variables that are disposed of at the end of their block. -/
def disposableBindings : Peg Rule :=
  .node .usingDeclaration (allOf [disposing, declarators .javascript .binder])

/-! ## Functions and classes -/

/-- A named function; the typed language also has signatures without a body. -/
def functionDeclaration (lang : Language) (ending : Ending) : Peg Rule :=
  let start := fun star : Peg Rule => allOf [
    opt (allOf [word "async", unended lang .line]),
    word "function",
    star,
    .role .name (name lang .binder .identifier),
    rule (.callSignature .typeLine)]
  anyOf [
    allOf [
      .node .functionDeclaration (allOf [
        start (opt (allOf [mark "*", .become .generatorFunctionDeclaration])),
        .role .body (rule (.block ending))]),
      .unless (goesOnWithValue lang)],
    typed lang
      (.node .functionSignature (allOf [
        start .empty,
        anyOf [.ends lang .signature, mark ";"]]))]

/-- A named class. -/
def classDeclaration (lang : Language) (ending : Ending) : Peg Rule :=
  anyOf [
    allOf [
      .node .classDeclaration (allOf [
        .many (decorator lang),
        word "class",
        className lang,
        rule .classRest,
        opt (.ends lang ending)]),
      .unless (goesOnWithValue lang)],
    typed lang
      (.node .abstractClassDeclaration (allOf [
        .many (decorator lang),
        word "abstract",
        word "class",
        className lang,
        rule .classRest]))]

/-! ## The typed language -/

/-- A name with dots, or a quoted one. -/
def moduleName : Peg Rule :=
  anyOf [
    .leaf .string .string,
    allOf [
      name .tsx .afterName .identifier,
      .many
        (.wrap .memberExpression (some .object) (allOf [
          mark ".",
          .role .property (anyName .propertyIdentifier)]))]]

/-- A namespace or a module with a name and perhaps a body. -/
def namedModule (kind : Kind) (w : String) : Peg Rule :=
  .node kind (allOf [
    word w,
    unended .tsx .line,
    .role .name moduleName,
    opt (.role .body (rule (.block .value)))])

/-- One of the interfaces that another one extends. -/
def parentInterface : Peg Rule := .role .typing (namedType .inside .binder)

/-- The members of an enumeration. -/
def enumBody : Peg Rule :=
  .node .enumBody (allOf [
    openBrace,
    opt (endedCommas (allOf [
      .role .name (rule .propertyName),
      opt
        (.wrap .enumAssignment (some .name) (allOf [
          mark "=",
          .role .value (expression .inside)]))])),
    closeBrace])

/-- The declarations of the typed language. -/
def typeDeclaration : Peg Rule :=
  anyOf [
    .node .interfaceDeclaration (allOf [
      word "interface",
      .role .name (anyName .typeIdentifier),
      opt (.role .typeParameters (rule .typeParameters)),
      opt (.node .extendsTypeClause (allOf [word "extends", commas parentInterface])),
      .role .body (.node .interfaceBody typeBraces)]),
    .node .typeAliasDeclaration (allOf [
      word "type",
      unended .tsx .line,
      .role .name (name .tsx .afterName .typeIdentifier),
      opt (.role .typeParameters (rule .typeParameters)),
      mark "=",
      .role .value (typeAt .typeLine),
      terminator .tsx .plain]),
    .node .enumDeclaration (allOf [
      opt (word "const"),
      word "enum",
      .role .name (anyName .identifier),
      .role .body enumBody]),
    .node .ambientDeclaration (allOf [
      word "declare",
      unended .tsx .line,
      anyOf [
        rule (.declaration .plain),
        allOf [word "global", rule (.block .plain)],
        allOf [
          word "module",
          mark ".",
          anyName .propertyIdentifier,
          mark ":",
          typeAt .typeLine,
          terminator .tsx .plain]]]),
    .node .importAlias (allOf [
      word "import",
      name .tsx .binder .identifier,
      mark "=",
      .unless (allOf [word "require", mark "("]),
      anyName .identifier,
      .many (allOf [mark ".", anyName .propertyIdentifier]),
      terminator .tsx .plain]),
    namedModule .moduleDeclaration "module",
    namedModule .internalModule "namespace"]

/-- A declaration. -/
def declaration (lang : Language) (ending : Ending) : Peg Rule :=
  anyOf [
    functionDeclaration lang ending,
    classDeclaration lang ending,
    bindings lang false,
    match lang with
    | .javascript => disposableBindings
    | .tsx => typeDeclaration]

end Grammar
end Transplant
