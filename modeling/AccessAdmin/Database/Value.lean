import AccessAdmin.Timestamp

/-!
# Values of a database

What a statement sends to a database as a parameter, and what stands in the rows that come back. A
cell of a row may be empty.
-/

namespace AccessAdmin.Database

/-- The types of columns. -/
inductive ColumnType where
  | text
  /-- Integers, of whatever width. -/
  | number
  | bool
  | time
deriving DecidableEq, Repr

/-- A column of a result. -/
structure Column where
  name : String
  type : ColumnType
deriving DecidableEq, Repr

/-- A value that is not empty. -/
inductive Value where
  | text (s : String)
  | number (n : Int)
  | bool (b : Bool)
  | texts (ss : List String)
  /-- A point in time, in microseconds from the start of the year 2000. -/
  | time (micros : Int)
deriving DecidableEq, Repr

/-- A point in time as a value; what lies below a microsecond is lost. -/
def Value.ofTime (t : Timestamp) : Value := .time t.micros

/-- The cells of a row in the order of its columns. -/
abbrev Row := List (Option Value)

end AccessAdmin.Database
