import AccessAdmin.Database.Value

/-!
# Rows as values

A record says in which columns a value is stored and how it is read back from a row of them. A row
with an empty cell stands for no value.
-/

namespace AccessAdmin.Database

/-- How a value is read from a row. -/
structure Record (α : Type) where
  /-- The columns, in order. -/
  columns : List Column
  /-- Reads a row from its front, and gives what is left of it. -/
  take : Row → Option (α × Row)

namespace Record

variable {α β : Type}

instance : Functor Record where
  map f r := ⟨r.columns, fun row => (r.take row).map fun (a, rest) => (f a, rest)⟩

instance : Seq Record where
  seq f r :=
    let r := r ()
    ⟨f.columns ++ r.columns, fun row => do
      let (g, row) ← f.take row
      let (a, row) ← r.take row
      return (g a, row)⟩

/-- A column of text. -/
def text (name : String) : Record String where
  columns := [⟨name, .text⟩]
  take
    | some (.text s) :: row => some (s, row)
    | _ => none

/-- A column of integers. -/
def number (name : String) : Record Int where
  columns := [⟨name, .number⟩]
  take
    | some (.number n) :: row => some (n, row)
    | _ => none

/-- A column of truth values. -/
def bool (name : String) : Record Bool where
  columns := [⟨name, .bool⟩]
  take
    | some (.bool b) :: row => some (b, row)
    | _ => none

/-- A column of points in time. -/
def time (name : String) : Record Timestamp where
  columns := [⟨name, .time⟩]
  take
    | some (.time n) :: row => some (.ofMicros n, row)
    | _ => none

/-- The value of a row. -/
def ofRow? (r : Record α) (row : Row) : Option α := (r.take row).map Prod.fst

end Record

end AccessAdmin.Database
