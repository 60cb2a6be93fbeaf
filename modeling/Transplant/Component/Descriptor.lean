import Transplant.Grammar.Rule
import Transplant.Text.Uppercase
import Transplant.Text.Basic

/-!
# What is known about a component

A `Descriptor` summarizes one component: its props with their defaults, its effects, the elements
that call its handlers, the condition under which it shows anything, and what it touches outside
itself. It is read off the source once and never changes.
-/

namespace Transplant

/-- What kind of value a prop holds, as far as the source tells. -/
inductive PropKind where
  | string
  | number
  | boolean
  | function
  | node
  | array
  | object
  | unknown
  /-- A kind that is only handed on. -/
  | other (name : String)
deriving DecidableEq, Repr

/-- The word for a kind. -/
def PropKind.name : PropKind → String
  | .string => "string"
  | .number => "number"
  | .boolean => "boolean"
  | .function => "function"
  | .node => "node"
  | .array => "array"
  | .object => "object"
  | .unknown => "unknown"
  | .other name => name

/-- The kind that a word stands for. -/
def PropKind.ofName (name : String) : PropKind :=
  ([.string, .number, .boolean, .function, .node, .array, .object, .unknown] : List PropKind).find?
    (·.name == name) |>.getD (.other name)

/-- `fallback` where nothing is known. -/
def PropKind.orElse (k : PropKind) (fallback : PropKind) : PropKind :=
  if k = .unknown then fallback else k

/-- Where the default of a prop is written. -/
inductive DefaultSource where
  | parameter
  | defaultsObject
deriving DecidableEq, Repr

/-- The word for a place of a default. -/
def DefaultSource.name : DefaultSource → String
  | .parameter => "parameter"
  | .defaultsObject => "defaults_object"

/-- One prop, in the order of the source. -/
structure PropSpec where
  name : String
  hasDefault : Bool := false
  /-- The default as written. -/
  defaultText : Option String := none
  required : Bool := true
  kind : PropKind := .unknown
  defaultSource : Option DefaultSource := none
  /-- Whether the default reads no names declared elsewhere. -/
  selfContained : Bool := true
deriving DecidableEq, Repr

/-- How a component is exported. -/
inductive ExportKind where
  | default
  | named
deriving DecidableEq, Repr

/-- The word for a kind of export. -/
def ExportKind.name : ExportKind → String
  | .default => "default"
  | .named => "named"

/-- When an effect runs. -/
inductive Trigger where
  | mount
  | update
  | unmount
deriving DecidableEq, Repr

/-- The word for a trigger. -/
def Trigger.name : Trigger → String
  | .mount => "mount"
  | .update => "update"
  | .unmount => "unmount"

/-- A side effect with the values that it depends on. -/
structure Effect where
  hook : String
  trigger : Trigger
  dependencies : List String
deriving DecidableEq, Repr

/-- A handler prop that is called when an event happens on an element. -/
structure Interaction where
  event : String
  handlerProp : String
  element : String
  /-- The fixed value of a test attribute of the element. -/
  testId : Option String := none
  /-- The text of the element, if it holds nothing else. -/
  text : Option String := none
  /-- Whether the element is the markup that the component returns. -/
  root : Bool := false
deriving DecidableEq, Repr

/-- Whether the element is itself a component: capitalized, or the member of something. -/
def Interaction.composite (i : Interaction) : Bool :=
  Text.isCapitalized i.element || i.element.toList.contains '.'

/-- Whether a test can find the element. -/
def Interaction.locatable (i : Interaction) : Bool :=
  !i.composite || i.testId.isSome || i.root || i.text.isSome

/-- A boolean prop that decides whether the component shows anything: it does when the prop has
the value `rendersWhen`. -/
structure Gate where
  prop : String
  rendersWhen : Bool := true
deriving DecidableEq, Repr

/-- How something outside the component is changed. -/
inductive WriteKind where
  | assign
  | update
  | delete
  | call
deriving DecidableEq, Repr

/-- The word for a way of changing. -/
def WriteKind.name : WriteKind → String
  | .assign => "assign"
  | .update => "update"
  | .delete => "delete"
  | .call => "call"

/-- A change of something outside the component. -/
structure OutsideWrite where
  line : Nat
  target : String
  kind : WriteKind
deriving DecidableEq, Repr

/-- All that is known about a component. -/
structure Descriptor where
  name : String
  sourcePath : String
  props : List PropSpec := []
  effects : List Effect := []
  styleRefs : List String := []
  childRefs : List String := []
  outsideWrites : List OutsideWrite := []
  exportKind : ExportKind := .default
  interactions : List Interaction := []
  visibility : Option Gate := none
  unknownProps : List String := []
  wrapper : Option String := none
  language : Language := .javascript
deriving DecidableEq, Repr

namespace Descriptor

/-- The first prop of that name. -/
def prop? (d : Descriptor) (name : String) : Option PropSpec := d.props.find? (·.name == name)

/-- The props with a default. -/
def defaulted (d : Descriptor) : List PropSpec := d.props.filter (·.hasDefault)

/-- The props without a default. -/
def undefaulted (d : Descriptor) : List PropSpec := d.props.filter fun p => !p.hasDefault

end Descriptor

/-- The list with `a` at its end, unless `a` is in it already. -/
def insertNew {α : Type} [BEq α] (l : List α) (a : α) : List α := if l.contains a then l else l ++ [a]

/-- The elements in order of first occurrence, each once. -/
def eachOnce {α : Type} [BEq α] (l : List α) : List α := l.foldl insertNew []

theorem mem_insertNew {α : Type} [BEq α] [LawfulBEq α] {l : List α} {a x : α} :
    a ∈ insertNew l x ↔ a ∈ l ∨ a = x := by
  unfold insertNew
  split
  · rename_i hx
    rw [List.contains_iff_mem] at hx
    exact ⟨Or.inl, fun h => h.elim id fun hax => hax ▸ hx⟩
  · rw [List.mem_append, List.mem_singleton]

theorem mem_eachOnce {α : Type} [BEq α] [LawfulBEq α] {a : α} {l : List α} :
    a ∈ eachOnce l ↔ a ∈ l := by
  have hfold (l seen : List α) : a ∈ l.foldl insertNew seen ↔ a ∈ seen ∨ a ∈ l := by
    induction l generalizing seen with
    | nil => simp
    | cons x rest ih => rw [List.foldl_cons, ih, mem_insertNew, List.mem_cons, or_assoc]
  rw [eachOnce, hfold]
  simp

theorem foldl_insertNew {α : Type} [BEq α] [LawfulBEq α] (l seen : List α) :
    l.foldl insertNew seen = seen ++ (l.filter fun a => !seen.contains a).eraseDups := by
  induction l generalizing seen with
  | nil => simp
  | cons a rest ih =>
    rw [List.foldl_cons, ih, insertNew]
    cases h : seen.contains a with
    | true => rw [if_pos rfl, List.filter_cons_of_neg (by rw [h]; decide)]
    | false =>
      have hrest : (rest.filter fun x => !(seen ++ [a]).contains x) =
          (rest.filter fun x => !seen.contains x).filter fun x => !x == a := by
        rw [List.filter_filter]
        refine List.filter_congr fun x _ => ?_
        by_cases hx : x = a <;> simp [hx]
      rw [if_neg nofun, List.filter_cons_of_pos (by rw [h]; rfl), List.eraseDups_cons, hrest,
        List.append_assoc, List.singleton_append]

end Transplant
