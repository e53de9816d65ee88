import AccessAdmin.Program

/-!
# The context of an operation

An operation knows who acts and by when it has to be done. The deadline stands over single calls
and over the work of a transaction, not over the ending of one: once the work is done, the commit
is not cut short.

* `Context.bounded`: work under the deadline.
* `Context.transaction`: work in a transaction, which is rolled back when the work fails or the
  deadline passes, and committed otherwise.
-/

namespace AccessAdmin

/-- Who acts, and the time by which the work has to be done. -/
structure Context where
  actor : String := "system"
  deadline : Option Nat := none
deriving DecidableEq, Repr

/-- A program that may end with a service error. -/
abbrev Service (α : Type) : Type := ExceptT ServiceError Program α

namespace Service

variable {α : Type}

/-- One step that cannot fail. -/
def perform (e : Effect) : Service e.Reply := ExceptT.lift (Program.perform e)

/-- A call on the store, whose error is put in the terms of a service. -/
def ofStore (p : Program (Except StoreError α)) : Service α :=
  ExceptT.mk do
    match ← p with
    | .ok a => return .ok a
    | .error e => return .error (.ofStore e)

/-- Refuses. -/
def refuse (e : ServiceError) : Service α := ExceptT.mk (pure (.error e))

end Service

/-- An open session. -/
structure Session where
  id : Store.SessionId
deriving DecidableEq, Repr

namespace Session

/-- One call on the session. -/
def call (s : Session) (c : Store.Call) : Program (Except StoreError c.Reply) :=
  Program.perform (.call s.id c)

/-- A question to the store. -/
def ask (s : Session) (r : Store.Read) : Service r.Reply := Service.ofStore (s.call (.read r))

/-- A change of the store. -/
def change (s : Session) (w : Store.Write) : Service Unit := Service.ofStore (s.call (.write w))

/-- The changes of a list, one after the other. -/
def changeAll (s : Session) : List Store.Write → Service Unit
  | [] => pure ()
  | w :: rest => do
    s.change w
    s.changeAll rest

end Session

/-- Opens a session for some work and closes it afterwards, however the work ends. -/
def withSession {ε α : Type} (onError : StoreError → ε)
    (work : Session → ExceptT ε Program α) : ExceptT ε Program α :=
  ExceptT.mk do
    match ← Program.perform .openSession with
    | .error e => return .error (onError e)
    | .ok id =>
      let result ← (work ⟨id⟩).run
      Program.perform (.closeSession id)
      return result

/-- Opens a session for the work of a service. -/
def Service.session {α : Type} (work : Session → Service α) : Service α :=
  withSession ServiceError.ofStore work

namespace Context

variable {α : Type}

/-- A program under the deadline; `none` when it passed. -/
def limited (ctx : Context) (p : Program α) : Program (Option α) :=
  match ctx.deadline with
  | none => some <$> p
  | some d => p.within d

/-- Work under the deadline. -/
def bounded (ctx : Context) (work : Service α) : Service α :=
  ExceptT.mk do
    match ← ctx.limited work.run with
    | none => return .error .cancelled
    | some r => return r

/-- Ends a transaction that came to nothing. A failure of the rollback is not reported: the cause
that led to it is. -/
def giveUp (s : Session) (e : ServiceError) : Service α :=
  ExceptT.mk do
    let _ ← s.call .rollback
    return .error e

/-- Work in a transaction on a session. A session that has one open already lets the work join it
and leaves its end to whoever began it. -/
def transaction (ctx : Context) (s : Session) (work : Service α) : Service α := do
  if ← Service.perform (.inTransaction s.id) then
    work
  else
    ctx.bounded (Service.ofStore (s.call .begin))
    match ← (ctx.limited work.run : Program _) with
    | none => giveUp s .cancelled
    | some (.error e) => giveUp s e
    | some (.ok a) =>
      Service.ofStore (s.call .commit)
      return a

end Context

end AccessAdmin
