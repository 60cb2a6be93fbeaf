import Transplant.Component.Effects
import Transplant.Component.Imports
import Transplant.Component.Interactions
import Transplant.Component.Outside
import Transplant.Component.Visibility

/-!
# The descriptor of a component

`Descriptor.ofTree` reads everything there is to know about the one component of a tree, and
`Descriptor.ofText` about the one in a text.
-/

namespace Transplant

/-- The descriptor of the one component of a tree. -/
def Descriptor.ofTree (root : Node) (language : Language) (path : String) :
    Except AnalysisError Descriptor :=
  (Site.locate root path).map fun site =>
    let x := Props.extract root site
    { name := site.name
      sourcePath := path
      props := x.props
      effects := Effects.ofComponent x site
      styleRefs := Imports.styleRefs root
      childRefs := Imports.childRefs root site.callable
      outsideWrites := Outside.ofComponent site
      exportKind := site.exportKind
      interactions := Interactions.ofComponent x site
      visibility := Visibility.ofComponent? x site
      unknownProps := x.unknown
      wrapper := site.wrapper
      language }

/-- The descriptor of the component in a text, which is read first. -/
def Descriptor.ofText (text path : String) : Except AnalysisError Descriptor :=
  match Source.parse text path with
  | .ok source => Descriptor.ofTree source.root source.language path
  | .error cause => .error (.unparseable path cause)

end Transplant
