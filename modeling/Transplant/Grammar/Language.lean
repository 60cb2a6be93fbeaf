/-!
# Languages

The two languages that component files are written in: JavaScript with markup, and its typed
variant, which has types, and takes fewer words for itself.
-/

namespace Transplant

/-- The two languages of component files. -/
inductive Language where
  | javascript
  | tsx
deriving DecidableEq, Repr

/-- The word for a language. -/
def Language.name : Language → String
  | .javascript => "javascript"
  | .tsx => "tsx"

end Transplant
