import AccessAdmin.Database.Peer
import AccessAdmin.Text.Blank
import AccessAdmin.Timestamp.Reader
import AccessAdmin.Wire.Lookup

/-!
# Rehearsed peers

A rehearsed peer carries out nothing. It answers each statement by the next of the replies that it
was given, or in the usual way when there is none, and keeps what it was sent.

* `Reply.answer`: what a reply comes to for a statement.
* `Reply.ofDocument`, `Rehearsal.ofDocument`: replies and peers written as documents.
-/

namespace AccessAdmin.Database

open Wire

/-- A reply to one statement. -/
inductive Reply where
  | usual
  /-- Rows, each the list of its cells or an object with cells by the names of their columns. -/
  | rows (rows : List Json)
  | affected (n : Nat)
  | failure (f : Failure)

namespace Reply

/-- Reads a reply: an object with `error`, `rows` or `affected`, or without parts. -/
def ofDocument (j : Json) : Reply :=
  if j.has "error" then .failure ⟨j.text "error"⟩
  else if j.has "rows" then .rows (j.items "rows")
  else if j.has "affected" then .affected (j.count "affected" 0)
  else .usual

/-- A cell of a column; null and what does not fit the column are empty. -/
def cell (type : ColumnType) (j : Json) : Option Value :=
  match type, j with
  | .text, .str s => some (.text s)
  | .number, .int n => some (.number n)
  | .bool, .bool b => some (.bool b)
  | .time, .str s => (Timestamp.ofText? s).map Value.ofTime
  | _, _ => none

/-- The cells of a row; those that it does not name are empty. -/
def row (columns : List Column) : Json → Row
  | .arr cells => (columns.zipIdx).map fun (c, i) => cell c.type (cells.getD i .null)
  | .obj fields => columns.map fun c => cell c.type ((fields.lookup c.name).getD .null)
  | _ => columns.map fun _ => none

/-- The rows that a statement answers with: counting answers with one row at least. -/
def rowsFor (s : Statement) (rows : List Json) : List Row :=
  match s, rows with
  | .count _ _, [] => [[some (.number 0)]]
  | s, rows => rows.map (row s.columns)

/-- What a reply comes to for a statement: by itself a statement has no rows to show, and counts
for one row. -/
def answer (s : Statement) : Reply → Except Failure Answer
  | usual => .ok ⟨rowsFor s [], 1⟩
  | rows rs => .ok ⟨rowsFor s rs, 1⟩
  | affected n => .ok ⟨rowsFor s [], n⟩
  | failure f => .error f

end Reply

/-- A peer that answers by given replies. -/
structure Rehearsal where
  greeting : Greeting := .welcome
  history : History := {}
  /-- The replies to the next statements. -/
  replies : List Reply := []
  /-- The statements so far, the newest first. -/
  heard : List Statement := []

namespace Rehearsal

/-- The peer before a scene: with new replies, and with nothing heard. -/
def scene (r : Rehearsal) (replies : List Reply) : Rehearsal :=
  { r with replies := replies, heard := [] }

/-- A version with the digest of its script. -/
def finishedVersion? (j : Json) : Option (Int × String) :=
  match j.elements with
  | [n, digest] => do return (← n.asNumber?, ← digest.asText?)
  | _ => none

/-- Reads how a peer greets, `silent` or by the code of a failure in `startup`, and which versions
of the schema it knows. -/
def ofDocument (j : Json) : Rehearsal where
  greeting :=
    match j.text? "startup" with
    | none => .welcome
    | some "silent" => .silence
    | some code => .refusal ⟨code⟩
  history :=
    { unfinished := (j.items "dirty").filterMap fun v => v.elements.head?.bind Json.asNumber?
      finished := (j.items "applied").filterMap finishedVersion? }

/-- The statements so far in their order. -/
def log (r : Rehearsal) : List Statement := r.heard.reverse

instance : Peer Rehearsal where
  greeting := greeting
  history := history
  execute r s :=
    ((r.replies.headD .usual).answer s, { r with replies := r.replies.tail, heard := s :: r.heard })

end Rehearsal

/-- The text of a statement on one line, with single blanks between its words. -/
def Statement.line (s : Statement) : String :=
  String.intercalate " " ((Text.words s.text.toList).map String.ofList)

end AccessAdmin.Database
