import Transplant.Grammar.Peg

/-!
# The rules of the grammar, by name

`Rule` names the rules that other rules refer to; their bodies stand in the modules for markup,
types, patterns, expressions and statements. An expression or a type is read with regard to its
`Place`, which says what may end it, and an operation also with regard to the operator in front of
it, whose `Binding` says which operators the operand may go on with.

This module also has the vocabulary in which the bodies are written: `allOf` and `anyOf` for lists,
and short forms for words, marks and names.
-/

namespace Transplant
namespace Grammar

/-- What may end an expression or a type where it stands. -/
inductive Place where
  /-- Between brackets: nothing but what the brackets hold it for. -/
  | inside
  /-- Between the marks of a condition: as between brackets, and a colon never belongs to the
  function in front of it. -/
  | branch
  /-- In the header of a loop: as between brackets, and also the word `in`. -/
  | header
  /-- In a statement that ends with a value: also the end of the line. -/
  | line
  /-- In a statement that ends with a type: also the end of the line. -/
  | typeLine
deriving DecidableEq, Repr

/-- How strongly an operator holds its operand: an operand goes on with the operators that bind
stronger. -/
inductive Binding where
  /-- No operator stands in front. -/
  | loose
  | coalescing
  | disjunction
  | conjunction
  | bitOr
  | bitXor
  | bitAnd
  | equality
  | relation
  | shift
  | sum
  | product
  | power
  /-- An operator without a left operand. -/
  | unary
  | awaiting
  /-- An increment or decrement in front. -/
  | updating
deriving DecidableEq, Repr

/-- The rank of a binding strength. -/
def Binding.rank : Binding → Nat
  | .loose => 0
  | .coalescing => 1
  | .disjunction => 2
  | .conjunction => 3
  | .bitOr => 4
  | .bitXor => 5
  | .bitAnd => 6
  | .equality => 7
  | .relation => 8
  | .shift => 9
  | .sum => 10
  | .product => 11
  | .power => 12
  | .unary => 13
  | .awaiting => 14
  | .updating => 15

/-- Whether an operand behind `b` goes on with the operator `op` of two operands. Operators of one
strength group to the left, exponentiation to the right. -/
def Binding.yields (b op : Binding) : Bool :=
  b.rank < op.rank || (b == .power && op == .power)

/-- Whether an operand behind `b` goes on with an assertion of the typed language. Assertions have
no place in the order of the operators: what groups to the left is complete before one. -/
def Binding.yieldsAssertion (b : Binding) : Bool := b == .loose || b == .power || b == .awaiting

/-- How strongly the operator in front holds a type. -/
inductive TypeBinding where
  | loose
  | union
  | intersection
deriving DecidableEq, Repr

/-- The rules that other rules refer to. -/
inductive Rule where
  -- modules and statements
  | program
  | statement (inCase : Bool)
  | declaration (ending : Ending)
  | block (ending : Ending)
  | callSignature (place : Place)
  | classRest
  -- expressions
  | operation (place : Place) (binding : Binding)
  | expressions (place : Place)
  | operand (place : Place)
  | primary (place : Place)
  | arguments
  | object
  | array
  | propertyName
  | method (place : Place)
  | template
  | parenthesized
  -- patterns
  | pattern
  | objectPattern
  | arrayPattern
  | parameters
  -- markup
  | element
  | markupAttribute
  | markupExpression
  -- types
  | type (place : Place) (binding : TypeBinding)
  | typeOperand (place : Place)
  | typePrimary (place : Place)
  | typeClause (place : Place)
  | typeArguments
  | typeParameters
  | typeMembers
deriving DecidableEq, Repr

/-- The keyword `s`. -/
def word {R : Type} (s : String) : Peg R := .leaf .token (.word s.toList)

/-- The operator or mark `s`. -/
def mark {R : Type} (s : String) : Peg R := .leaf .token (.mark s.toList)

/-- The characters `s`, whatever follows. -/
def exact {R : Type} (s : String) : Peg R := .leaf .token (.exact s.toList)

/-- An opening brace. -/
def openBrace {R : Type} : Peg R := .leaf .token (.exact [openBraceChar])

/-- A closing brace. -/
def closeBrace {R : Type} : Peg R := .leaf .token (.exact [closeBraceChar])

/-- The keyword `s` as a leaf of its own kind. -/
def wordAs {R : Type} (kind : Kind) (s : String) : Peg R := .leaf kind (.word s.toList)

/-- A name of the given kind at a spot. -/
def name {R : Type} (lang : Language) (spot : Spot) (kind : Kind) : Peg R :=
  .leaf kind (.name (spot.barred lang))

/-- Any word as a leaf of the given kind. -/
def anyName {R : Type} (kind : Kind) : Peg R := .leaf kind (.name [])

/-- Once or not at all. -/
def opt {R : Type} (e : Peg R) : Peg R := .alt e .empty

/-- Fails. -/
def nothing {R : Type} : Peg R := .unless .empty

/-- Succeeds without reading if `e` would succeed. -/
def ahead {R : Type} (e : Peg R) : Peg R := .unless (.unless e)

/-- The expressions one after the other. -/
def allOf {R : Type} : List (Peg R) → Peg R
  | [] => .empty
  | [e] => e
  | e :: rest => .seq e (allOf rest)

/-- The first of the expressions that succeeds. -/
def anyOf {R : Type} : List (Peg R) → Peg R
  | [] => nothing
  | [e] => e
  | e :: rest => .alt e (anyOf rest)

/-- One of the keywords. -/
def anyWord {R : Type} (words : List String) : Peg R := anyOf (words.map word)

/-- One of the operators. -/
def anyMark {R : Type} (marks : List String) : Peg R := anyOf (marks.map mark)

/-- At least one, with commas between. -/
def commas {R : Type} (e : Peg R) : Peg R := .seq e (.many (.seq (mark ",") e))

/-- At least one, with commas between; a comma may also end the list. -/
def endedCommas {R : Type} (e : Peg R) : Peg R := .seq (commas e) (opt (mark ","))

/-- Any number with commas between; a comma may also end the list, or stand alone. -/
def commaList {R : Type} (e : Peg R) : Peg R := .seq (opt (commas e)) (opt (mark ","))

/-- Any number with commas between, where each may be missing. -/
def gappyList {R : Type} (e : Peg R) : Peg R :=
  .seq (opt e) (.many (.seq (mark ",") (opt e)))

/-- Text between backquotes with the given parts, in which `inner` may stand between braces behind
a dollar sign. -/
def quasi {R : Type} (whole part : Kind) (others : List (Peg R)) (inner : Peg R) : Peg R :=
  let quote : Peg R := .leaf .token (.exact [backquoteChar])
  .node whole (allOf [
    quote,
    .many (anyOf ([
      .leaf .templateFragment .templateText,
      .node part (allOf [.leaf .token (.exact ['$', openBraceChar]), inner, closeBrace])] ++
        others)),
    quote])

/-- `e` in the typed language only. -/
def typed {R : Type} (lang : Language) (e : Peg R) : Peg R :=
  match lang with
  | .javascript => nothing
  | .tsx => e

/-- `e` if the language is typed, and nothing to read otherwise. -/
def optTyped {R : Type} (lang : Language) (e : Peg R) : Peg R :=
  match lang with
  | .javascript => .empty
  | .tsx => opt e

/-- The end of a statement: a place where no semicolon is needed, or a semicolon. -/
def terminator {R : Type} (lang : Language) (ending : Ending) : Peg R :=
  .alt (.ends lang ending) (mark ";")

/-- Succeeds unless what stands at the place ends here with the line. -/
def unended {R : Type} (lang : Language) : Place → Peg R
  | .line => .unless (.ends lang .value)
  | .typeLine => .unless (.ends lang .plain)
  | _ => .empty

/-- The place of what stands in the type of an expression at a place. -/
def Place.ofType : Place → Place
  | .line => .line
  | .typeLine => .typeLine
  | _ => .inside

/-- The rule `r`. -/
def rule (r : Rule) : Peg Rule := .ref r

/-- An expression without commas at a place. -/
def expression (place : Place) : Peg Rule := rule (.operation place .loose)

/-- A type at a place. -/
def typeAt (place : Place) : Peg Rule := rule (.type place .loose)

end Grammar
end Transplant
