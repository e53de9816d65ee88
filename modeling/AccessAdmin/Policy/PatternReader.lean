import AccessAdmin.Policy.PathPattern
import AccessAdmin.Policy.Regex

/-!
# A reader of path patterns

The reader that a running service hands to its engine. In a pattern, `/*` stands for a slash and
anything after it, and a colon with what follows up to the next slash for one non-empty segment. The
rest of the pattern is a regular expression in the notation of `Regex.parse`, so a pattern may fail
to be one; the whole is anchored at its first and its last character only, so in `/a|/b` each side
has one anchor. An expression that goes beyond that notation is refused.

* `PathPattern.reader`: the reader.
-/

namespace AccessAdmin.Policy.PathPattern

/-- Writes `/.*` for every `/*`. -/
def expandStars : List Char → List Char
  | '/' :: '*' :: cs => '/' :: '.' :: '*' :: expandStars cs
  | c :: cs => c :: expandStars cs
  | [] => []

/-- The expression for one non-empty segment. -/
def segment : List Char := "[^/]+".toList

/-- Writes `segment` for every colon and the characters after it up to the next slash. -/
def expandNames : Bool → List Char → List Char
  | _, [] => []
  | inName, c :: cs =>
    if c = '/' then c :: expandNames false cs
    else if inName then expandNames true cs
    else if c = ':' then segment ++ expandNames true cs
    else c :: expandNames false cs

/-- The regular expression of a pattern, `none` when the pattern has none. -/
def compile (pattern : String) : Option Regex :=
  Regex.parse ('^' :: expandNames false (expandStars pattern.toList) ++ ['$'])

/-- Reads a pattern by its regular expression. -/
def reader : Reader := fun pattern => (compile pattern).map Regex.search

end AccessAdmin.Policy.PathPattern
