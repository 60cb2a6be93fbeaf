import Transplant.Component.Expression

/-!
# What a component imports

The local names bound by imports, the style files among the imported modules, and the imported
components that the markup uses.
-/

namespace Transplant
namespace Imports

/-- The endings of style files. -/
def styleEndings : List String := [".css", ".scss", ".sass", ".less", ".styl"]

/-- The modules of the framework itself. -/
def frameworkModules : List String := ["react", "react-dom"]

/-- The module that an import statement names. -/
def specifier? (statement : Node) : Option String :=
  if statement.kind == .importStatement then
    (statement.child? .source).bind Node.stringValue?
  else none

/-- The local names that a node of an import statement binds. -/
def bound (n : Node) : List String :=
  match n.kind with
  | .importClause | .namespaceImport =>
    (n.parts.filter (·.kind == .identifier)).map (·.text)
  | .importSpecifier =>
    (((n.child? .alias).orElse fun _ => n.child? .name).map (·.text)).toList
  | _ => []

/-- The local names bound by imports, with their modules, last first. -/
def bindings (root : Node) : List (String × String) :=
  (root.parts.flatMap fun statement =>
    match specifier? statement with
    | some module => (statement.walk.flatMap bound).map (·, module)
    | none => []).reverse

/-- The imported style files, in order. -/
def styleRefs (root : Node) : List String :=
  (root.parts.filterMap specifier?).filter fun s => Text.endsWithAny (Text.lower s) styleEndings

/-- The name that an element takes from its surroundings: a component, or the object whose member
it is. -/
def elementRoot? (tag : Node) : Option String :=
  (tag.child? .name).bind fun name =>
    if name.kind == .identifier then
      if Text.isCapitalized name.text then some name.text else none
    else (Expression.root? name).map (·.text)

/-- The imported names that the markup of a component uses, those of the framework aside. -/
def childRefs (root callable : Node) : List String :=
  let known := bindings root
  eachOnce ((callable.walk.filter (·.kind.opensElement)).filterMap fun tag =>
    (elementRoot? tag).filter fun name =>
      (known.lookup name).any fun module => !frameworkModules.contains module)

end Imports
end Transplant
