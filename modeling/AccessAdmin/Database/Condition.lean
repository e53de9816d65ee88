import AccessAdmin.Database.Pattern
import AccessAdmin.Database.Value

/-!
# Conditions on rows

A condition is data: it is written into a statement with numbered places for its values, and it
says which rows of a table it holds for.

* `Condition.text`, `Condition.values`: how a condition is written.
* `Condition.holds`: which rows a condition holds for.
-/

namespace AccessAdmin.Database

/-- A condition on a row. -/
inductive Condition where
  | always
  /-- The column has this value. -/
  | equal (column : String) (v : Value)
  /-- The column has one of these texts. -/
  | oneOf (column : String) (texts : List String)
  /-- The column has a text that the pattern stands for. -/
  | like (column : String) (pattern : String)
  | both (a b : Condition)
  | either (a b : Condition)
  /-- The column has the value that another table has in `other`, in some row with a condition. -/
  | among (column other table : String) (c : Condition)
deriving Repr

/-- The n-th place of a statement. -/
def place (n : Nat) : String := "$" ++ toString n

namespace Condition

/-- Every one of some conditions. -/
def all (cs : List Condition) : Condition := cs.foldl both always

/-- The values that a condition sends, in the order of their places. -/
def values : Condition → List Value
  | always => []
  | equal _ v => [v]
  | oneOf _ texts => [.texts texts]
  | like _ pattern => [.text pattern]
  | both a b => a.values ++ b.values
  | either a b => a.values ++ b.values
  | among _ _ _ c => c.values

/-- The text of a condition whose first place is number `n`. -/
def text (n : Nat) : Condition → String
  | always => "TRUE"
  | equal column _ => column ++ " = " ++ place n
  | oneOf column _ => column ++ " = ANY(" ++ place n ++ ")"
  | like column _ => column ++ " LIKE " ++ place n
  | both a b => a.text n ++ " AND " ++ b.text (n + a.values.length)
  | either a b => "(" ++ a.text n ++ " OR " ++ b.text (n + a.values.length) ++ ")"
  | among column other table c =>
    column ++ " IN (SELECT " ++ other ++ " FROM " ++ table ++ " WHERE " ++ c.text n ++ ")"

/-! ## Meaning -/

/-- A row by the names of its columns; a value is there for every column that the row has. -/
abbrev Named := String → Option Value

/-- The rows of every table. -/
abbrev Contents := String → List Named

/-- Whether a condition holds for a row, beside the tables that it may look at. -/
def holds (db : Contents) : Condition → Named → Bool
  | always, _ => true
  | equal column v, row => row column == some v
  | oneOf column texts, row =>
    match row column with
    | some (.text s) => texts.contains s
    | _ => false
  | like column pattern, row =>
    match row column with
    | some (.text s) => Pattern.accepts pattern s
    | _ => false
  | both a b, row => a.holds db row && b.holds db row
  | either a b, row => a.holds db row || b.holds db row
  | among column other table c, row =>
    (db table).any fun found =>
      (row column).isSome && found other == row column && c.holds db found

end Condition

end AccessAdmin.Database
