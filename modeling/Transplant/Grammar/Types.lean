import Transplant.Grammar.Rule

/-!
# Types

Type clauses, type expressions and the members of object types and interfaces. Intersections bind
stronger than unions, unions stronger than conditions; operators of one strength group to the left.
-/

namespace Transplant
namespace Grammar

/-- What a function that returns holds of an argument, as in `x is string`. -/
def typePredicate (place : Place) : Peg Rule :=
  .node .typePredicate (allOf [
    .role .name (anyOf [wordAs .thisExpression "this", name .tsx .binder .identifier]),
    word "is",
    typeAt place])

/-- What holds after a function has returned at all. -/
def assertion (place : Place) : Peg Rule :=
  .node .asserts (allOf [
    word "asserts",
    anyOf [typePredicate place, wordAs .thisExpression "this", name .tsx .binder .identifier]])

/-- The type of a result: a type, or what the result says about an argument. -/
def resultType (place : Place) : Peg Rule :=
  anyOf [
    assertion place,
    typePredicate place,
    allOf [.unless (word "asserts"), typeAt place]]

/-- A type behind a colon. -/
def typeClause (place : Place) : Peg Rule := .node .typeClause (allOf [mark ":", typeAt place])

/-- The type of a result behind a colon. -/
def resultClause (place : Place) : Peg Rule :=
  .node .typeClause (allOf [mark ":", resultType place])

/-- Types between angle brackets. -/
def typeArguments : Peg Rule :=
  .node .typeArguments (allOf [exact "<", endedCommas (typeAt .inside), exact ">"])

/-- The parameters of a generic declaration. -/
def typeParameters : Peg Rule :=
  .node .typeParameters (allOf [
    exact "<",
    endedCommas
      (.node .typeParameter (allOf [
        opt (word "const"),
        .role .name (anyName .typeIdentifier),
        opt (allOf [anyOf [word "extends", mark ":"], typeAt .inside]),
        opt (allOf [mark "=", .role .value (typeAt .inside)])])),
    exact ">"])

/-- A function type. -/
def functionType (place : Place) : Peg Rule :=
  .node .functionType (allOf [
    opt (.role .typeParameters (rule .typeParameters)),
    .role .parameters (rule .parameters),
    mark "=>",
    .role .returnType (resultType place)])

/-- A constructor type. -/
def constructorType (place : Place) : Peg Rule :=
  .node .constructorType (allOf [
    opt (word "abstract"),
    word "new",
    opt (.role .typeParameters (rule .typeParameters)),
    .role .parameters (rule .parameters),
    mark "=>",
    .role .typing (typeAt place)])

/-- A module taken as a value, and the members behind it. -/
def importedType : Peg Rule :=
  let property : Peg Rule := .role .property (anyOf [
    .leaf .privatePropertyIdentifier .privateName,
    anyName .propertyIdentifier])
  let call : Peg Rule := .wrap .callExpression (some .callee) (.role .arguments (rule .arguments))
  let member : Peg Rule := .wrap .memberExpression (some .object) (allOf [mark ".", property])
  allOf [
    wordAs .importCallee "import",
    anyOf [call, member],
    .many (anyOf [member, allOf [.lastIs [.memberExpression], call]])]

/-- The bar of a union, which no closing brace follows. -/
def bar : Peg Rule := allOf [.unless (exact "|\x7d"), mark "|"]

/-- A type with the operators that bind stronger than the one in front of it. -/
def typeOperation (place : Place) (binding : TypeBinding) : Peg Rule :=
  let union : Peg Rule :=
    .wrap .unionType none (allOf [bar, rule (.type place .union)])
  let intersection : Peg Rule :=
    .wrap .intersectionType none (allOf [mark "&", rule (.type place .intersection)])
  let condition : Peg Rule := .wrap .conditionalType (some .left) (allOf [
    word "extends",
    .role .right (typeAt .inside),
    mark "?",
    .role .consequence (typeAt .inside),
    mark ":",
    .role .alternative (typeAt place)])
  let operators : List (Peg Rule) := match binding with
    | .loose => [intersection, union, condition]
    | .union => [intersection]
    | .intersection => []
  allOf [rule (.typeOperand place), .many (allOf [unended .tsx place, anyOf operators])]

/-- What an operator on types can stand before or behind. -/
def typeOperand (place : Place) : Peg Rule :=
  anyOf [
    functionType place,
    constructorType place,
    .node .readonlyType (allOf [word "readonly", typeAt place]),
    .node .inferType (allOf [
      word "infer",
      anyName .typeIdentifier,
      opt (allOf [unended .tsx place, word "extends", rule (.type place .union)])]),
    .node .unionType (allOf [bar, rule (.type place .union)]),
    .node .intersectionType (allOf [mark "&", rule (.type place .intersection)]),
    importedType,
    rule (.typePrimary place)]

/-- A literal taken as a type. -/
def literalType : Peg Rule :=
  .node .literalType (anyOf [
    .node .unaryExpression (allOf [
      .role .operator (anyMark ["-", "+"]),
      .role .argument (.leaf .number .number)]),
    .leaf .number .number,
    .leaf .string .string,
    wordAs .trueLiteral "true",
    wordAs .falseLiteral "false",
    wordAs .nullLiteral "null",
    wordAs .undefinedLiteral "undefined"])

/-- The words for built-in types. -/
def predefinedWords : List String :=
  ["any", "number", "boolean", "string", "symbol", "unknown", "void", "never", "object"]

/-- A built-in type. -/
def predefinedType : Peg Rule :=
  anyOf [
    anyOf (predefinedWords.map (wordAs .predefinedType)),
    .node .predefinedType (allOf [word "unique", word "symbol"])]

/-- A type given by name, with the names around it and its arguments. An angle bracket behind a name
always opens arguments. -/
def namedType (place : Place) (spot : Spot) : Peg Rule :=
  allOf [
    anyOf [
      .node .nestedTypeIdentifier (allOf [
        name .tsx spot .identifier,
        unended .tsx place,
        mark ".",
        anyName .typeIdentifier,
        .many (allOf [unended .tsx place, mark ".", anyName .typeIdentifier])]),
      name .tsx spot .typeIdentifier],
    anyOf [
      allOf [
        unended .tsx place,
        .wrap .genericType (some .name) (.role .typeArguments (rule .typeArguments))],
      .unless (mark "<")]]

/-- The type of a value: a name with the members, calls and type arguments behind it. -/
def typeQuery (place : Place) : Peg Rule :=
  let property : Peg Rule := .role .property (anyOf [
    .leaf .privatePropertyIdentifier .privateName,
    anyName .propertyIdentifier])
  let key : Peg Rule :=
    .role .index (anyOf [predefinedType, .leaf .string .string, .leaf .number .number])
  let member : Peg Rule :=
    .wrap .memberExpression (some .object) (allOf [anyMark [".", "?."], property])
  let element : Peg Rule :=
    .wrap .subscriptExpression (some .object) (allOf [mark "?.", mark "[", key, mark "]"])
  let call : Peg Rule := .wrap .callExpression (some .callee) (.role .arguments (rule .arguments))
  let generic : Peg Rule :=
    .wrap .instantiationExpression none (.role .typeArguments (rule .typeArguments))
  let callable : List Kind := [.identifier, .memberExpression, .subscriptExpression]
  .node .typeQuery (allOf [
    word "typeof",
    anyOf [
      allOf [wordAs .importCallee "import", anyOf [call, generic]],
      wordAs .thisExpression "this",
      name .tsx .binder .identifier],
    .many (allOf [
      unended .tsx place,
      anyOf [member, element, allOf [.lastIs callable, call]]]),
    opt (allOf [unended .tsx place, .lastIs callable, generic])])

/-- One element of a tuple type. -/
def tupleElement : Peg Rule :=
  anyOf [
    .node .requiredParameter (allOf [
      .role .name (anyOf [
        .node .restPattern (allOf [mark "...", name .tsx .binder .identifier]),
        name .tsx .binder .identifier]),
      .role .typing (rule (.typeClause .inside))]),
    .node .optionalParameter (allOf [
      .role .name (name .tsx .binder .identifier),
      mark "?",
      .role .typing (rule (.typeClause .inside))]),
    .node .restType (allOf [mark "...", typeAt .inside]),
    allOf [typeAt .inside, opt (.wrap .optionalType none (mark "?"))]]

/-- The members of an object type in braces. -/
def typeBraces : Peg Rule :=
  allOf [
    anyOf [exact "\x7b|", openBrace],
    rule .typeMembers,
    anyOf [exact "|\x7d", closeBrace]]

/-- A type that needs no parentheses in front of an array bracket. -/
def typeAtom (place : Place) : Peg Rule :=
  anyOf [
    .node .parenthesizedType (allOf [mark "(", typeAt .inside, mark ")"]),
    predefinedType,
    literalType,
    wordAs .thisType "this",
    word "const",
    .node .existentialType (mark "*"),
    .node .maybeType (allOf [mark "?", rule (.typePrimary place)]),
    .node .indexTypeQuery (allOf [word "keyof", rule (.typePrimary place)]),
    typeQuery place,
    .node .objectType typeBraces,
    .node .tupleType (allOf [mark "[", commaList tupleElement, mark "]"]),
    quasi .templateLiteralType .templateType [] (anyOf [
      .node .inferType (allOf [word "infer", anyName .typeIdentifier]),
      typeAt .inside]),
    namedType place .type]

/-- A type with the array brackets and look-ups behind it. -/
def typePrimary (place : Place) : Peg Rule :=
  allOf [
    typeAtom place,
    .many (allOf [
      unended .tsx place,
      anyOf [
        .wrap .arrayType none (allOf [mark "[", mark "]"]),
        .wrap .lookupType none (allOf [mark "[", typeAt .inside, mark "]"])]])]

/-! ## Members of object types -/

/-- What a key can begin with. -/
def keyStart : Peg Rule :=
  anyOf [
    anyName .token,
    .leaf .token .privateName,
    .leaf .token .string,
    .leaf .token .number,
    mark "["]

/-- A word in front of a key, which is no key itself. -/
def modifier (lang : Language) (place : Place) (words : List String) (next : Peg Rule) : Peg Rule :=
  opt (allOf [anyWord words, unended lang place, ahead next])

/-- The signature of an index or of a mapped type. -/
def indexSignature : Peg Rule :=
  .node .indexSignature (allOf [
    opt (allOf [opt (anyMark ["-", "+"]), word "readonly"]),
    mark "[",
    anyOf [
      allOf [.role .name (anyName .identifier), mark ":", .role .index (typeAt .inside)],
      allOf [
        .role .name (anyName .typeIdentifier),
        word "in",
        typeAt .inside,
        opt (allOf [word "as", typeAt .inside])]],
    mark "]",
    anyOf [
      .role .typing (rule (.typeClause .typeLine)),
      .role .typing
        (.node .typeClause
          (allOf [anyOf [exact "-?:", exact "+?:", exact "?:"], typeAt .typeLine]))]])

/-- The signature of a method: with what may stand in front of its name, up to its result. -/
def methodSignature : Peg Rule :=
  let starred : Peg Rule := anyOf [keyStart, mark "*"]
  allOf [
    modifier .tsx .typeLine ["public", "private", "protected"] starred,
    modifier .tsx .typeLine ["static"] starred,
    modifier .tsx .typeLine ["override"] starred,
    modifier .tsx .typeLine ["readonly"] starred,
    modifier .tsx .typeLine ["async"] starred,
    anyOf [mark "*", modifier .tsx .typeLine ["get", "set"] keyStart],
    .role .name (rule .propertyName),
    unended .tsx .typeLine,
    opt (mark "?"),
    unended .tsx .typeLine,
    rule (.callSignature .typeLine)]

/-- One member of an object type or interface. -/
def typeMember : Peg Rule :=
  anyOf [
    .node .constructSignature (allOf [
      opt (word "abstract"),
      word "new",
      unended .tsx .typeLine,
      opt (.role .typeParameters (rule .typeParameters)),
      .role .parameters (rule .parameters),
      opt (.role .typing (rule (.typeClause .typeLine)))]),
    .node .callSignature (rule (.callSignature .typeLine)),
    indexSignature,
    allOf [
      .unless (word "abstract"),
      anyOf [
        .node .methodSignature methodSignature,
        .node .propertySignature (allOf [
          modifier .tsx .typeLine ["public", "private", "protected"] keyStart,
          modifier .tsx .typeLine ["static"] keyStart,
          modifier .tsx .typeLine ["override"] keyStart,
          modifier .tsx .typeLine ["readonly"] keyStart,
          .role .name (rule .propertyName),
          opt (mark "?"),
          opt (.role .typing (rule (.typeClause .typeLine)))])]]]

/-- The members of an object type or interface, ended by a comma, a semicolon or the line. A mark may
stand before the first of them. -/
def typeMembers : Peg Rule :=
  let sep : Peg Rule := anyOf [mark ",", terminator .tsx .plain]
  opt (allOf [
    opt (anyMark [",", ";"]),
    typeMember,
    .many (allOf [sep, typeMember]),
    opt sep])

end Grammar
end Transplant
