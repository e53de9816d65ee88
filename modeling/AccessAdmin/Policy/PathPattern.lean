/-!
# Path patterns

A permission names the paths it covers by a pattern. How patterns are told from other texts, and
what each of them covers, is not fixed here: it is handed to the engine as a reader. A pattern is
read when a decision comes to it, and one that cannot be compiled leaves the request without a
decision.

* `PathPattern.Reader`: what reads patterns.
* `PathPattern.covers?`: whether a pattern covers a path.
-/

namespace AccessAdmin.Policy.PathPattern

/-- The paths that a pattern covers, or `none` for a text that cannot be compiled. -/
abbrev Reader : Type := String → Option (String → Bool)

/-- Whether a pattern covers a path; `none` when the pattern cannot be compiled. -/
def covers? (reads : Reader) (pattern path : String) : Option Bool :=
  (reads pattern).map (· path)

end AccessAdmin.Policy.PathPattern
