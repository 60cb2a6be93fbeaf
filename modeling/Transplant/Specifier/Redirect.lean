import Transplant.Specifier.Pattern

/-!
# Redirected module specifiers

A module specifier is the text that an import names its module by. A `Redirect` replaces how a
specifier begins, and of several the one with the longest beginning counts. A beginning has to end
where a component of the specifier ends.

* `Redirect.applies`: whether a redirect fits a specifier
* `Redirects.match?`: the redirect for a specifier
* `Redirects.resolve?`: the specifier that it leads to
-/

namespace Transplant

/-- Specifiers that begin with `lead` begin with `replacement` instead. -/
structure Redirect where
  lead : String
  replacement : String
deriving DecidableEq, Repr

namespace Redirect

/-- The specifier after the redirect, which has to fit. -/
def apply (r : Redirect) (specifier : String) : String :=
  r.replacement ++ Text.drop specifier (Text.size r.lead)

/-- Whether a redirect fits: its beginning is that of the specifier and ends with a slash, with the
specifier, or in front of a slash. -/
def applies (r : Redirect) (specifier : String) : Bool :=
  Text.startsWith specifier r.lead &&
    (Text.endsWith r.lead "/" ||
      match specifier.toList.drop (Text.size r.lead) with
      | [] => true
      | c :: _ => c == '/')

/-- The text without a star at its end: `@/*` means the same as `@/`. -/
def withoutStar (s : String) : String := if Text.endsWith s "*" then Text.dropLast s 1 else s

/-- The redirect that an entry of a table stands for. -/
def ofEntry (entry : String × String) : Redirect :=
  ⟨withoutStar entry.1, withoutStar entry.2⟩

/-- Whether the first redirect has at least as long a beginning as the second. -/
def notShorter (a b : Redirect) : Bool := Text.size b.lead ≤ Text.size a.lead

end Redirect

/-- Redirects, those with longer beginnings first. -/
structure Redirects where
  rules : List Redirect
deriving DecidableEq, Repr

namespace Redirects

/-- The given redirects; those with equally long beginnings keep their order. -/
def ofRules (rules : List Redirect) : Redirects := ⟨rules.mergeSort Redirect.notShorter⟩

/-- The redirects of a table. -/
def ofTable (t : Table String) : Redirects := ofRules (t.entries.map Redirect.ofEntry)

/-- The redirects of some patterns. -/
def ofPatterns (patterns : List String) : Except Pattern.Malformed Redirects :=
  (Pattern.table patterns).map ofTable

/-- The first redirect that fits. -/
def match? (r : Redirects) (specifier : String) : Option Redirect :=
  r.rules.find? (·.applies specifier)

/-- The specifier after the first redirect that fits. -/
def resolve? (r : Redirects) (specifier : String) : Option String :=
  (r.match? specifier).map (·.apply specifier)

end Redirects
end Transplant
