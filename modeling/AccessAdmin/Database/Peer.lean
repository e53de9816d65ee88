import AccessAdmin.Database.Statement

/-!
# The other side of a connection

A peer answers statements. What it does with them is its own affair.
-/

namespace AccessAdmin.Database

/-- Why a statement failed: the five characters that name the kind of failure. -/
structure Failure where
  code : String
deriving DecidableEq, Repr

/-- The code of a key that is already there. -/
def Failure.duplicateKey : String := "23505"

/-- What a statement came to. -/
structure Answer where
  rows : List Row := []
  /-- How many rows were inserted, changed or removed. -/
  affected : Nat := 0
deriving DecidableEq, Repr

/-- What a peer says to a new connection. -/
inductive Greeting where
  | welcome
  | silence
  | refusal (f : Failure)
deriving DecidableEq, Repr

/-- What a peer knows of versions of the schema. -/
structure History where
  /-- Versions that were begun and not finished. -/
  unfinished : List Int := []
  /-- Finished versions, each with the digest of its script. -/
  finished : List (Int × String) := []
deriving DecidableEq, Repr

/-- Something that answers statements. -/
class Peer (π : Type) where
  greeting : π → Greeting
  history : π → History
  execute : π → Statement → Except Failure Answer × π

end AccessAdmin.Database
