import Transplant.Component.Interactions
import Transplant.Plan.Naming

/-!
# Test attributes

Elements are marked for tests by one of several attributes. The target project has its own, and all
others are renamed to it.
-/

namespace Transplant
namespace TestAttributes

/-- The edit that renames an attribute, if it is a test attribute of another name. -/
def edit? (convention : String) (attr : Node) : Option Edit :=
  if attr.kind == .jsxAttribute then
    attr.firstPart?.bind fun name =>
      if Interactions.testAttributes.contains name.text && name.text != convention then
        some ⟨name.start, name.stop, convention⟩
      else none
  else none

/-- The edits that rename the test attributes of a tree; without a convention there are none. If the
convention is no text, the kind of value that it is comes out in their place. -/
def edits (n : Naming) (root : Node) : Except String (List Edit) :=
  match n.enforced? with
  | none => .ok []
  | some convention =>
    match root.walk.filterMap (edit? convention.shown), convention with
    | _ :: _, .other _ kind => .error kind
    | edits, _ => .ok edits

end TestAttributes
end Transplant
