import AccessAdmin.Database.Condition
import AccessAdmin.Paging

/-!
# Statements

A statement is data. It is sent as a text with numbered places and the values for them.

* `Statement.text`, `Statement.values`: how a statement is sent.
* `Statement.columns`: the columns of the rows that come back.
-/

namespace AccessAdmin.Database

/-- What an update puts into a column. -/
inductive Setting where
  | value (v : Value)
  /-- The time by the clock of the database. -/
  | now
deriving DecidableEq, Repr

/-- Orders rows by a column. -/
structure Sorting where
  column : String
  descending : Bool := false
deriving DecidableEq, Repr

/-- A statement for a database. -/
inductive Statement where
  | begin
  | commit
  | rollback
  /-- Asks for nothing but an answer. -/
  | ping
  /-- Statements as they are written. -/
  | script (text : String)
  | insert (table : String) (row : List (String × Value))
  /-- Sets columns of the rows with a key. -/
  | update (table : String) (key : List (String × Value)) (set : List (String × Setting))
  | delete (table : String) (key : List (String × Value))
  /-- Counts the rows with a condition. -/
  | count (table : String) (c : Condition)
  /-- The rows with a condition, in order, cut to a window. -/
  | select (columns : List Column) (table : String) (c : Condition) (order : List Sorting)
    (window : Option Window)
deriving Repr

namespace Statement

/-- Items with commas between them. -/
def listed (items : List String) : String := String.intercalate ", " items

/-- The condition that a row has a key. -/
def hasKey (key : List (String × Value)) : Condition :=
  match key.map fun k => Condition.equal k.1 k.2 with
  | [] => .always
  | c :: cs => cs.foldl .both c

/-- The assignments of an update, whose first place is number `n`. -/
def settings (n : Nat) : List (String × Setting) → List String
  | [] => []
  | (column, .value _) :: rest => (column ++ " = " ++ place n) :: settings (n + 1) rest
  | (column, .now) :: rest => (column ++ " = now()") :: settings n rest

/-- The end of a statement that orders its rows. -/
def ordering : List Sorting → String
  | [] => ""
  | order =>
    " ORDER BY " ++ listed (order.map fun s => if s.descending then s.column ++ " DESC" else s.column)

/-- The end of a statement that cuts its rows to a window; its first place is number `n`. -/
def cutting (n : Nat) : Option Window → String
  | none => ""
  | some _ => " LIMIT " ++ place n ++ " OFFSET " ++ place (n + 1)

/-- The text of a statement. -/
def text : Statement → String
  | begin => "BEGIN"
  | commit => "COMMIT"
  | rollback => "ROLLBACK"
  | ping => "SELECT 1"
  | script text => text
  | insert table row =>
    "INSERT INTO " ++ table ++ " (" ++ listed (row.map Prod.fst) ++ ") VALUES (" ++
      listed ((List.range row.length).map fun i => place (i + 1)) ++ ")"
  | update table key set =>
    "UPDATE " ++ table ++ " SET " ++ listed (settings (key.length + 1) set) ++ " WHERE " ++
      (hasKey key).text 1
  | delete table key => "DELETE FROM " ++ table ++ " WHERE " ++ (hasKey key).text 1
  | count table c => "SELECT COUNT(*) FROM " ++ table ++ " WHERE " ++ c.text 1
  | select columns table c order window =>
    "SELECT " ++ listed (columns.map Column.name) ++ " FROM " ++ table ++ " WHERE " ++ c.text 1 ++
      ordering order ++ cutting (c.values.length + 1) window

/-- The value of a setting, if it sends one. -/
def sent? : Setting → Option Value
  | .value v => some v
  | .now => none

/-- A machine word as a signed number of the database. -/
def signed (n : UInt64) : Value := .number n.toInt64.toInt

/-- The values of a statement in the order of their places. -/
def values : Statement → List Value
  | insert _ row => row.map Prod.snd
  | update _ key set => key.map Prod.snd ++ set.filterMap fun s => sent? s.2
  | delete _ key => key.map Prod.snd
  | count _ c => c.values
  | select _ _ c _ window => c.values ++ (window.map fun w => [signed w.limit, signed w.offset]).getD []
  | _ => []

/-- The columns of the rows that come back. -/
def columns : Statement → List Column
  | count _ _ => [⟨"COUNT(*)", .number⟩]
  | select columns _ _ _ _ => columns
  | _ => []

end Statement

end AccessAdmin.Database
