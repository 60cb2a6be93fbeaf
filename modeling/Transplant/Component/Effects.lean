import Transplant.Component.Props

/-!
# Effects

The calls of effect hooks in the component itself. An effect without a list of dependencies runs on
every update, one with an empty list when the component is mounted; one whose callback returns
something also runs when the component goes away.
-/

namespace Transplant
namespace Effects

/-- The hooks that run effects. -/
def hooks : List String := ["useEffect", "useLayoutEffect", "useInsertionEffect"]

/-- A function name without the framework in front. -/
def bareCallee (callee : Node) : String := Text.withoutLead callee.text "React."

/-- The arguments of a call. -/
def argumentsOf (call : Node) : List Node := ((call.child? .arguments).map Node.parts).getD []

/-- Whether the callback of an effect returns something to clean up with. -/
def cleansUp (callback : Node) : Bool :=
  callback.kind.isFunction &&
    match callback.child? .body with
    | none => false
    | some body =>
      if body.kind != .statementBlock then body.unwrap.kind.isFunction
      else body.ownNodes.any fun n =>
        n.kind == .returnStatement && n.firstPart?.any fun e => !Expression.isNothing e

/-- When the effect of a call runs first, and what it depends on. -/
def schedule (x : Props.Extracted) (args : List Node) : Trigger × List String :=
  match args[1]?.map Node.unwrap with
  | none => (.update, [])
  | some deps =>
    if deps.kind == .array then
      let names := deps.parts.map fun e => (x.reference? e).getD e.text
      (if names.isEmpty then .mount else .update, names)
    else (.update, [deps.text])

/-- The effects of one call. -/
def ofCall (x : Props.Extracted) (call : Node) : List Effect :=
  match call.child? .callee with
  | none => []
  | some callee =>
    let hook := bareCallee callee
    if !hooks.contains hook then []
    else
      let args := argumentsOf call
      let (trigger, dependencies) := schedule x args
      let last :=
        if (args.head?.map Node.unwrap).any cleansUp then [⟨hook, .unmount, dependencies⟩] else []
      ⟨hook, trigger, dependencies⟩ :: last

/-- The effects of a component, each once. -/
def ofComponent (x : Props.Extracted) (site : Site) : List Effect :=
  eachOnce ((site.callable.ownNodes.filter (·.kind == .callExpression)).flatMap (ofCall x))

end Effects
end Transplant
