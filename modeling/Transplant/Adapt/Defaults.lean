import Transplant.Component.Site
import Transplant.Plan.Batch
import Transplant.Text.Identifier

/-!
# Where defaults of props are written

Defaults stand in the parameter of a component or in an object that is assigned to it. The edits
here move the static ones to the place that the target project wants, and say which stay.

* `Defaults.toParameter`: from the object to the parameter
* `Defaults.toObject`: from the parameter to the object
-/

namespace Transplant
namespace Defaults

/-- Edits together with what there is to warn about. -/
structure Outcome where
  edits : List Edit := []
  warnings : List String := []
deriving DecidableEq, Repr

/-- The edit that replaces a node. -/
def replace (n : Node) (replacement : String) : Edit := ⟨n.start, n.stop, replacement⟩

/-- The prop that a member of an object pattern binds. -/
def memberName? (member : Node) : Option String :=
  match member.kind with
  | .shorthandPropertyIdentifierPattern => some member.text
  | .objectAssignmentPattern => (member.child? .left).map (·.text)
  | .pairPattern => (member.child? .key).map (·.keyName)
  | _ => none

/-- The members of an object pattern by prop; the last member of a prop counts. -/
def members (pattern : Node) : Table Node :=
  Table.ofPairs (pattern.parts.filterMap fun m => (memberName? m).map (·, m))

/-- The default that a member gives to its prop. -/
def memberDefault? (member : Node) : Option Node :=
  match member.kind with
  | .objectAssignmentPattern => member.child? .right
  | .pairPattern =>
    (member.child? .value).bind fun value =>
      if value.kind == .assignmentPattern then value.child? .right else none
  | _ => none

/-- A member as it is written without its default. -/
def bindingText (member : Node) : String :=
  match member.kind with
  | .objectAssignmentPattern => ((member.child? .left).getD member).text
  | .pairPattern =>
    match member.child? .key, member.child? .value with
    | some key, some value =>
      let bound := if value.kind == .assignmentPattern then (value.child? .left).getD value else value
      key.text ++ ": " ++ bound.text
    | _, _ => member.text
  | _ => member.text

/-- The text of an object with the given entries on one line. -/
def objectText (entries : List String) : String :=
  "\x7b " ++ Text.join ", " entries ++ " \x7d"

/-- The edit that deletes a statement with its line end, and one of two line ends before it. -/
def delete (bytes : Bytes) (statement : Node) : Edit :=
  let newline : UInt8 := 10
  let before := (bytes.take statement.start).drop (statement.start - 2)
  let after := (bytes.drop statement.stop).take 1
  { start := if before = [newline, newline] then statement.start - 1 else statement.start
    stop := if after = [newline] then statement.stop + 1 else statement.stop
    replacement := "" }

/-! ## From the object to the parameter -/

/-- What becomes of one entry of the object. -/
inductive Move where
  /-- Its value goes to a member of the pattern. -/
  | moved (pair : Site.DefaultPair) (member : Node)
  | notStatic (prop : String)
  | notDestructured (prop : String)

/-- What becomes of an entry, given the members of the pattern. -/
def moveOf (members : Table Node) (pair : Site.DefaultPair) : Move :=
  if !Expression.isStatic pair.value then .notStatic pair.prop
  else match members.get? pair.prop with
    | none => .notDestructured pair.prop
    | some member => .moved pair member

/-- The edit of a moved entry. -/
def Move.edit? : Move → Option Edit
  | .moved pair member => some (replace member (bindingText member ++ " = " ++ pair.value.text))
  | _ => none

/-- Where the entry stands, if it is moved. -/
def Move.from? : Move → Option Nat
  | .moved pair _ => some pair.pair.start
  | _ => none

/-- The warning for an entry that stays. -/
def Move.warning? (component : String) : Move → Option String
  | .moved .. => none
  | .notStatic prop =>
    some s!"Default for prop '{prop}' is not a static value; kept in {component}.defaultProps"
  | .notDestructured prop =>
    some s!"Prop '{prop}' is not destructured; its default stays in {component}.defaultProps"

/-- The edit of the object after some entries have been moved: the rest is kept, and without a rest
the statement goes. -/
def shrink (bytes : Bytes) (defaults : Site.Defaults) (moved : List Nat) : Edit :=
  let remaining := defaults.object.parts.filter fun c => !moved.contains c.start
  if remaining.isEmpty then delete bytes defaults.statement
  else replace defaults.object (objectText (remaining.map (·.text)))

/-- The edits that move static defaults into the parameter. -/
def toParameter (bytes : Bytes) (site : Site) (pattern : Option Node)
    (defaults : Option Site.Defaults) : Outcome :=
  match defaults with
  | none => {}
  | some defaults =>
    if defaults.pairs.isEmpty then {}
    else match pattern.filter (·.kind == .objectPattern) with
      | none =>
        { warnings := [s!"{site.name}.defaultProps kept: the props parameter is not destructured"] }
      | some pattern =>
        let members := members pattern
        let moves := defaults.pairs.map (moveOf members)
        let moved := moves.filterMap Move.from?
        { edits := moves.filterMap Move.edit? ++
            (if moved.isEmpty then [] else [shrink bytes defaults moved])
          warnings := moves.filterMap (Move.warning? site.name) }

/-! ## From the parameter to the object -/

/-- What becomes of a default in the parameter. -/
inductive Lift where
  /-- It goes to the object. -/
  | lifted (prop : String) (member default : Node)
  | notStatic (prop : String)
  /-- The component has no name that an object could be assigned to. -/
  | noCarrier (prop : String)

/-- What becomes of the default of a member, if it has one. -/
def liftOf? (site : Site) (entry : String × Node) : Option Lift :=
  (memberDefault? entry.2).map fun default =>
    if !Expression.isStatic default then .notStatic entry.1
    else if site.binding.isNone || site.wrapper.isSome then .noCarrier entry.1
    else .lifted entry.1 entry.2 default

/-- The edit that takes a lifted default out of the parameter. -/
def Lift.edit? : Lift → Option Edit
  | .lifted _ member _ => some (replace member (bindingText member))
  | _ => none

/-- The prop and the text of a lifted default. -/
def Lift.entry? : Lift → Option (String × String)
  | .lifted prop _ default => some (prop, default.text)
  | _ => none

/-- The warning for a default that stays. -/
def Lift.warning? (component : String) : Lift → Option String
  | .lifted .. => none
  | .notStatic prop => some s!"Default for prop '{prop}' is not a static value; kept in the parameter"
  | .noCarrier prop =>
    some (s!"{component} cannot carry a defaultProps object; default for '{prop}' kept in the " ++
      "parameter")

/-- The key of an entry as it is written. -/
def keyText (prop : String) : String := if Text.isIdentifier prop then prop else "'" ++ prop ++ "'"

/-- An entry as it is written. -/
def entryText (entry : String × String) : String := keyText entry.1 ++ ": " ++ entry.2

/-- The edit that adds entries to the object, or a new object behind the component. -/
def extend (site : Site) (defaults : Option Site.Defaults) (entries : List String) : Edit :=
  match defaults with
  | some defaults =>
    replace defaults.object (objectText (defaults.object.parts.map (·.text) ++ entries))
  | none =>
    let body := Text.concat (entries.map fun e => "  " ++ e ++ ",\n")
    let place := site.statement.stop
    ⟨place, place, "\n\n" ++ site.binding.getD "" ++ ".defaultProps = \x7b\n" ++ body ++ "\x7d;"⟩

/-- The edits that move static defaults into the object. -/
def toObject (site : Site) (pattern : Option Node) (defaults : Option Site.Defaults) : Outcome :=
  match pattern.filter (·.kind == .objectPattern) with
  | none => {}
  | some pattern =>
    let lifts := (members pattern).entries.filterMap (liftOf? site)
    let present := (defaults.map fun d => d.pairs.map (·.prop)).getD []
    let fresh := (lifts.filterMap Lift.entry?).filter fun e => !present.contains e.1
    { edits := lifts.filterMap Lift.edit? ++
        (if fresh.isEmpty then [] else [extend site defaults (fresh.map entryText)])
      warnings := lifts.filterMap (Lift.warning? site.name) }

/-- The edits that bring the defaults of a component into a style. -/
def normalize (style : DefaultStyle) (source : Source) (site : Site) : Outcome :=
  let pattern := (Function.params site.callable).head?.map fun p => (Function.pattern p).1
  let defaults := Site.defaults? source.root site
  match style with
  | .explicit => toParameter source.bytes site pattern defaults
  | .assigned => toObject site pattern defaults

end Defaults
end Transplant
