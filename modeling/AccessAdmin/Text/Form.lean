import AccessAdmin.Text.Percent
import AccessAdmin.Text.Separated

/-!
# Form encoding

A list of names with values: `&` stands between the pairs, `=` inside a pair, and a plus sign for a
blank.

* `Form.pairs`: the names and values of a text.
-/

namespace AccessAdmin.Text.Form

/-- A name or a value. -/
def decode (cs : List Char) : String :=
  Percent.decodeLossy (String.ofList (cs.map fun c => if c = '+' then ' ' else c))

/-- A name and its value; without an equals sign the value is empty. -/
def pair (cs : List Char) : String × String :=
  let name := cs.takeWhile (· != '=')
  (decode name, decode (cs.drop (name.length + 1)))

/-- The names and values of a text, in order; empty pairs are passed over. -/
def pairs (text : String) : List (String × String) :=
  ((splitOn '&' text.toList).filter fun cs => !cs.isEmpty).map pair

end AccessAdmin.Text.Form
