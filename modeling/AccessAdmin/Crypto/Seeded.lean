import AccessAdmin.Crypto.Blake2b
import AccessAdmin.Policy.PatternReader
import AccessAdmin.Text.Utf8
import AccessAdmin.World

/-!
# Ids and salts from a seed

Everything that has to be fresh is drawn from one random seed by hashing it with a label and a
number. Different draws come to different texts, and nobody without the seed can tell the next one.

* `Seeded.surroundings`: what a world takes from outside.
-/

namespace AccessAdmin.Crypto.Seeded

/-- So many octets of the n-th draw under a label. -/
def draw (seed : List UInt8) (label : String) (n size : Nat) : List UInt8 :=
  Blake2b.digest size (seed ++ Text.Utf8.encode (label ++ toString n))

/-- Sixteen octets as the text of an id, marked as drawn at random. -/
def idText (bs : List UInt8) : String :=
  let bs := (bs.set 6 ((bs.getD 6 0 &&& 0x0f) ||| 0x40)).set 8 ((bs.getD 8 0 &&& 0x3f) ||| 0x80)
  let part (start size : Nat) : String := hexText ((bs.drop start).take size)
  String.intercalate "-" [part 0 4, part 4 2, part 6 2, part 8 2, part 10 6]

/-- The label of a kind of ids. -/
def label : Kind → String
  | .menu => "menu"
  | .role => "role"
  | .user => "user"

/-- What a world takes from outside: ids and salts of a seed, one time, and the reader of path
patterns. -/
def surroundings (seed : List UInt8) (now : Timestamp) : Surroundings where
  idName kind n := idText (draw seed (label kind) n 16)
  clock _ := now
  salt n := ⟨(draw seed "salt" n 16).toArray⟩
  patterns := Policy.PathPattern.reader

end AccessAdmin.Crypto.Seeded
