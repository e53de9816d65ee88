import AccessAdmin.Metrics
import AccessAdmin.Policy.Call
import AccessAdmin.Service.Error
import AccessAdmin.Store.Shared

/-!
# Programs

What a service does is a program: a tree of effects, each with a continuation for its answer. The
tree says nothing of who answers, so the same program runs on the in-memory store, on a database,
with planned faults, or one step at a time beside other programs.

An effect may stand under a time limit. Its continuation then also covers the case that the limit
passes before the answer comes.

* `Program.within`: puts a whole program under a time limit. When the limit passes during a step,
  what is left of the program is dropped.
-/

namespace AccessAdmin

/-- The kinds of rows that have ids of their own. -/
inductive Kind where
  | menu
  | role
  | user
deriving DecidableEq, Repr

/-- An entry of the journal that a scripted transaction keeps. -/
inductive Remark where
  /-- What a call on the session came to. -/
  | called (c : Store.Call) (outcome : Except ServiceError c.Reply)
  /-- Whether the session has a transaction open. -/
  | state (open? : Bool)
  /-- A pause is over. -/
  | paused
  /-- What a transaction inside the transaction came to. -/
  | joined (outcome : Except ServiceError Unit)

/-- One step of a program. -/
inductive Effect where
  | openSession
  | closeSession (s : Store.SessionId)
  | inTransaction (s : Store.SessionId)
  | call (s : Store.SessionId) (c : Store.Call)
  | checkHealth
  | policy (c : Policy.Call)
  | wait (ms : Nat)
  /-- The milliseconds that pauses took so far. -/
  | elapsed
  | readClock
  | freshId (s : Store.SessionId) (kind : Kind)
  | freshSalt
  | count (e : Event)
  | note (r : Remark)

/-- The type of the answer to a step. -/
abbrev Effect.Reply : Effect → Type
  | openSession => Except StoreError Store.SessionId
  | closeSession _ => Unit
  | inTransaction _ => Bool
  | call _ c => Except StoreError c.Reply
  | checkHealth => Except StoreError Unit
  | policy c => c.Reply
  | wait _ => Unit
  | elapsed => Nat
  | readClock => Timestamp
  | freshId _ _ => String
  | freshSalt => ByteArray
  | count _ => Unit
  | note _ => Unit

/-- A program that ends with a value of type `α`. -/
inductive Program (α : Type) : Type where
  | done (a : α)
  | ask (e : Effect) (k : e.Reply → Program α)
  /-- A step under a time limit; without an answer the limit has passed. -/
  | askBy (limit : Nat) (e : Effect) (k : Option e.Reply → Program α)

namespace Program

variable {α β : Type}

/-- Goes on with a second program. -/
def bind : Program α → (α → Program β) → Program β
  | done a, f => f a
  | ask e k, f => ask e fun r => bind (k r) f
  | askBy l e k, f => askBy l e fun r => bind (k r) f

instance : Monad Program where
  pure := done
  bind := bind

/-- One step without a limit. -/
def perform (e : Effect) : Program e.Reply := ask e done

/-- Puts a program under a time limit. A step that already has an earlier limit keeps it; under
the new one the rest of the program is dropped when it passes. -/
def within (limit : Nat) : Program α → Program (Option α)
  | done a => done (some a)
  | ask e k =>
    askBy limit e fun
      | some r => within limit (k r)
      | none => done none
  | askBy l e k =>
    if l ≤ limit then askBy l e fun r => within limit (k r)
    else
      askBy limit e fun
        | some r => within limit (k (some r))
        | none => done none

@[simp] theorem pure_eq (a : α) : (pure a : Program α) = done a := rfl

@[simp] theorem bind_eq (p : Program α) (f : α → Program β) : (p >>= f) = p.bind f := rfl

theorem bind_done (p : Program α) : p.bind done = p := by
  induction p with
  | done a => rfl
  | ask e k ih => simp only [bind]; congr; funext r; exact ih r
  | askBy l e k ih => simp only [bind]; congr; funext r; exact ih r

theorem bind_assoc {γ : Type} (p : Program α) (f : α → Program β) (g : β → Program γ) :
    (p.bind f).bind g = p.bind fun a => (f a).bind g := by
  induction p with
  | done a => rfl
  | ask e k ih => simp only [bind]; congr; funext r; exact ih r
  | askBy l e k ih => simp only [bind]; congr; funext r; exact ih r

instance : LawfulMonad Program :=
  LawfulMonad.mk' Program
    (fun p => bind_done p)
    (fun _ _ => rfl)
    (fun p f g => bind_assoc p f g)

end Program

end AccessAdmin
