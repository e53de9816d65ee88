import AccessAdmin.Store.Tables

/-!
# Sessions on shared tables

Any number of sessions share the tables of one store. A transaction works on a copy of the tables,
which takes their place at the commit and is thrown away by a rollback or when the session is
closed. While one session has a transaction open, every other session has to wait: its calls are
blocked and have no effect.

* `Shared.call`: one call of one session.
* `Shared.close`: ends a session, and its transaction with it.
-/

namespace AccessAdmin.Store

/-- The number of a session. -/
abbrev SessionId := Nat

/-- What became of a call: an answer, or no answer before another session ends its transaction. -/
inductive Attempt (α : Type) where
  | answered (a : α)
  | blocked
deriving DecidableEq, Repr

/-- The transaction that is open: whose it is, and the copy of the tables it works on. -/
structure Writer where
  session : SessionId
  working : Tables
deriving DecidableEq, Repr

/-- Tables shared by sessions, of which at most one has a transaction open. -/
structure Shared where
  tables : Tables := {}
  writer : Option Writer := none
deriving DecidableEq, Repr

namespace Shared

/-- Whether a session has a transaction open. -/
def inTransaction (st : Shared) (s : SessionId) : Bool :=
  st.writer.any (·.session == s)

/-- The tables as a session sees them, unless it has to wait. -/
def view (st : Shared) (s : SessionId) : Attempt Tables :=
  match st.writer with
  | none => .answered st.tables
  | some w => if w.session = s then .answered w.working else .blocked

/-- Puts back the tables that a session works on. -/
def put (st : Shared) (t : Tables) : Shared :=
  match st.writer with
  | none => { st with tables := t }
  | some w => { st with writer := some { w with working := t } }

/-- One call of a session. -/
def call (st : Shared) (s : SessionId) : (c : Call) → Attempt (Except StoreError c.Reply) × Shared
  | .begin =>
    match st.writer with
    | none => (.answered (.ok ()), { st with writer := some ⟨s, st.tables⟩ })
    | some w =>
      if w.session = s then (.answered (.error (.transaction "transaction already open")), st)
      else (.blocked, st)
  | .commit =>
    match st.writer with
    | none => (.answered (.error (.transaction "no open transaction")), st)
    | some w =>
      if w.session = s then (.answered (.ok ()), ⟨w.working, none⟩)
      else (.answered (.error (.transaction "no open transaction")), st)
  | .rollback =>
    if st.inTransaction s then (.answered (.ok ()), { st with writer := none })
    else (.answered (.error (.transaction "no open transaction")), st)
  | .read r =>
    match st.view s with
    | .blocked => (.blocked, st)
    | .answered t => (.answered (t.answer r), st)
  | .write w =>
    match st.view s with
    | .blocked => (.blocked, st)
    | .answered t =>
      match t.apply w with
      | .error e => (.answered (.error e), st)
      | .ok t => (.answered (.ok ()), st.put t)

/-- Ends a session; a transaction that it has open leaves no trace. -/
def close (st : Shared) (s : SessionId) : Shared :=
  if st.inTransaction s then { st with writer := none } else st

end Shared

end AccessAdmin.Store
