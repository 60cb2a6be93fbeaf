import Transplant.Grammar.ModuleItem

/-!
# Statements

A brace at the beginning of a statement opens a block if it can, and a block, a function or a class
there ends the statement unless what follows can only go on with a value.
-/

namespace Transplant
namespace Grammar

/-! ## Loops -/

/-- The pattern or name that a loop declares. -/
def loopVariable (lang : Language) (spot : Spot) : Peg Rule :=
  .role .left (anyOf [rule .objectPattern, rule .arrayPattern, name lang spot .identifier])

/-- The header of a loop over the members of a collection. -/
def membersHeader (lang : Language) : Peg Rule :=
  allOf [
    anyOf [
      allOf [
        .role .kind (word "var"),
        loopVariable lang .binder,
        opt (allOf [mark "=", .role .value (expression .header)]),
        unended lang .typeLine],
      allOf [
        .role .kind (word "let"),
        loopVariable lang .inHeader,
        opt (.ends lang .plain)],
      allOf [
        .role .kind (word "const"),
        loopVariable lang .afterConst,
        opt (.ends lang .plain)],
      .role .left (allOf [
        anyOf [allOf [.unless (mark "..."), rule .pattern], rule .parenthesized],
        ahead (anyWord ["in", "of"])])],
    .role .operator (anyWord ["in", "of"]),
    .role .right (rule (.expressions .inside))]

/-- The header of a loop with a counter. -/
def counterHeader (lang : Language) : Peg Rule :=
  let missing : Peg Rule := .node .emptyStatement (mark ";")
  let given : Peg Rule := rule (.expressions .inside)
  allOf [
    anyOf [
      .role .initializer (bindings lang true),
      allOf [.role .initializer given, mark ";"],
      .role .initializer missing],
    anyOf [allOf [.role .condition given, mark ";"], .role .condition missing],
    opt (.role .increment given)]

/-- A loop over members or with a counter. -/
def forStatement (lang : Language) : Peg Rule :=
  .node .forStatement (allOf [
    word "for",
    anyOf [
      allOf [
        opt (word "await"),
        mark "(",
        membersHeader lang,
        mark ")",
        .become .forInStatement],
      allOf [mark "(", counterHeader lang, mark ")"]],
    .role .body (rule (.statement false))])

/-! ## Conditions and handlers -/

/-- A choice between two statements. The word `else` always belongs to the nearest condition. -/
def ifStatement : Peg Rule :=
  .node .ifStatement (allOf [
    word "if",
    .role .condition (rule .parenthesized),
    .role .consequence (rule (.statement false)),
    anyOf [
      .role .alternative (.node .elseClause (allOf [word "else", rule (.statement false)])),
      .unless (word "else")]])

/-- A choice by value. -/
def switchStatement : Peg Rule :=
  let body : Peg Rule := .role .body (.many (rule (.statement true)))
  .node .switchStatement (allOf [
    word "switch",
    .role .value (rule .parenthesized),
    .role .body
      (.node .switchBody (allOf [
        openBrace,
        .many (anyOf [
          .node .switchCase (allOf [
            word "case",
            .role .value (rule (.expressions .inside)),
            mark ":",
            body]),
          .node .switchDefault (allOf [word "default", mark ":", body])]),
        closeBrace]))])

/-- A block with handlers. -/
def tryStatement (lang : Language) : Peg Rule :=
  let caught : Peg Rule := allOf [
    mark "(",
    .role .parameter (anyOf [
      rule .objectPattern,
      rule .arrayPattern,
      name lang .binder .identifier]),
    optTyped lang (.role .typing (rule (.typeClause .inside))),
    mark ")"]
  let handler : Peg Rule := .node .catchClause (allOf [
    word "catch",
    opt caught,
    .role .body (rule (.block .plain))])
  let finalizer : Peg Rule := .node .finallyClause (allOf [
    word "finally",
    .role .body (rule (.block .plain))])
  .node .tryStatement (allOf [
    word "try",
    .role .body (rule (.block .plain)),
    anyOf [.role .handler handler, .unless (word "catch")],
    anyOf [.role .finalizer finalizer, .unless (word "finally")]])

/-- The loops and conditions. -/
def controlStatement (lang : Language) : Peg Rule :=
  let condition : Peg Rule := .role .condition (rule .parenthesized)
  let body : Peg Rule := .role .body (rule (.statement false))
  anyOf [
    ifStatement,
    forStatement lang,
    .node .whileStatement (allOf [word "while", condition, body]),
    .node .doStatement (allOf [
      word "do",
      body,
      word "while",
      condition,
      opt (terminator lang .plain)]),
    switchStatement,
    tryStatement lang,
    .node .withStatement (allOf [word "with", .role .object (rule .parenthesized), body])]

/-- The statements that leave a function, a loop or a case. -/
def leavingStatement (lang : Language) : Peg Rule :=
  let toLabel : Peg Rule := anyOf [
    terminator lang .plain,
    allOf [.role .label (name lang .binder .statementIdentifier), terminator lang .plain]]
  anyOf [
    .node .returnStatement (allOf [
      word "return",
      anyOf [
        terminator lang .plain,
        allOf [rule (.expressions .line), terminator lang .value]]]),
    .node .throwStatement (allOf [
      word "throw",
      rule (.expressions .line),
      terminator lang .value]),
    .node .breakStatement (allOf [word "break", toLabel]),
    .node .continueStatement (allOf [word "continue", toLabel]),
    .node .debuggerStatement (allOf [word "debugger", terminator lang .plain])]

/-! ## All statements -/

/-- What cannot begin an expression that is a statement, although it could begin an expression
elsewhere: an export, variables, and an object that begins with a plain name. -/
def leadsNoValue (lang : Language) : Peg Rule :=
  anyOf [
    leadsExport lang,
    allOf [
      word "let",
      unended lang .line,
      anyOf [mark "[", openBrace, name lang .afterName .token]],
    allOf [openBrace, anyName .token, anyOf [mark ",", closeBrace]]]

/-- A statement that is an expression; a namespace counts as one. -/
def expressionStatement (lang : Language) : Peg Rule :=
  allOf [
    .unless (leadsNoValue lang),
    .node .expressionStatement (allOf [rule (.expressions .line), terminator lang .value])]

/-- A statement; `inCase` says whether it stands behind the label of a case. -/
def statement (lang : Language) (inCase : Bool) : Peg Rule :=
  let words : List String := statementWords ++ (if inCase then ["case", "default"] else [])
  let named : Peg Rule := anyOf [
    .node .labeledStatement (allOf [
      .role .label (name lang .operand .statementIdentifier),
      mark ":",
      .role .body (rule (.statement false))]),
    expressionStatement lang]
  anyOf [
    exportStatement lang,
    importStatement lang,
    allOf [rule (.block .plain), .unless (goesOnWithValue lang)],
    rule (.declaration .value),
    controlStatement lang,
    leavingStatement lang,
    .node .emptyStatement (mark ";"),
    match lang with
    | .javascript => allOf [.unless disposing, named]
    | .tsx => allOf [.unless (anyWord words), named]]

/-- A file: an interpreter line, then statements. -/
def program : Peg Rule :=
  allOf [
    opt (.leaf .hashBang .hashBang),
    .many (anyOf [.leaf .pageComment .pageComment, rule (.statement false)])]

end Grammar
end Transplant
