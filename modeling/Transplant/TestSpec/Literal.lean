import Transplant.Text.Basic

/-!
# String literals

A text between single quotes. Backslash, single quote and line feed are escaped, everything else
stands for itself.
-/

namespace Transplant
namespace Literal

/-- A character as it is written between the quotes. -/
def escape (c : Char) : List Char :=
  if c = '\\' then ['\\', '\\']
  else if c = '\'' then ['\\', '\'']
  else if c = '\n' then ['\\', 'n']
  else [c]

/-- What stands between the quotes. -/
def body (cs : List Char) : List Char := cs.flatMap escape

/-- The literal of a text. -/
def ofText (s : String) : String := String.ofList ('\'' :: body s.toList ++ ['\''])

end Literal
end Transplant
