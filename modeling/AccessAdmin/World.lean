import AccessAdmin.Fault
import AccessAdmin.Program

/-!
# Running programs

A world answers the steps of a program one after the other: it holds a store, the engine, the plan
of faults, the counters and a clock that only pauses move. The store may be any backend that opens
sessions and takes their calls.

* `Backend`: what a store has to offer.
* `World.step`: one step, perhaps under a time limit.
* `World.run`: a whole program.
-/

namespace AccessAdmin

/-- A store that opens sessions and takes their calls. -/
class Backend (σ : Type) where
  openSession : σ → Except StoreError Store.SessionId × σ
  closeSession : σ → Store.SessionId → σ
  inTransaction : σ → Store.SessionId → Bool
  call : σ → Store.SessionId → (c : Store.Call) → Store.Attempt (Except StoreError c.Reply) × σ
  checkHealth : σ → Except StoreError Unit × σ
  /-- The number of the next id of a kind, counted from 1, as a session sees it. -/
  serial : σ → Store.SessionId → Kind → Nat × σ

/-- The in-memory store with the number of sessions it has opened. -/
structure MemoryStore where
  shared : Store.Shared := {}
  opened : Nat := 0
deriving DecidableEq, Repr

namespace MemoryStore

/-- How many rows of a kind were created in some tables. -/
def createdOf (t : Store.Tables) : Kind → Nat
  | .menu => t.created.menus
  | .role => t.created.roles
  | .user => t.created.users

/-- The tables that a session's next row will go to. -/
def tablesFor (m : MemoryStore) (s : Store.SessionId) : Store.Tables :=
  match m.shared.view s with
  | .answered t => t
  | .blocked => m.shared.tables

instance : Backend MemoryStore where
  openSession m := (.ok m.opened, { m with opened := m.opened + 1 })
  closeSession m s := { m with shared := m.shared.close s }
  inTransaction m s := m.shared.inTransaction s
  call m s c :=
    let (r, shared) := m.shared.call s c
    (r, { m with shared := shared })
  checkHealth m := (.ok (), m)
  serial m s kind := (createdOf (m.tablesFor s) kind + 1, m)

end MemoryStore

/-- What a world takes from outside: the name of the n-th id of a kind, the time of the n-th
reading of the clock, the n-th salt, and how the patterns of permissions are read. -/
structure Surroundings where
  idName : Kind → Nat → String
  clock : Nat → Timestamp
  salt : Nat → ByteArray
  patterns : Policy.PathPattern.Reader

/-- Everything that a program can act on. -/
structure World (σ : Type) where
  store : σ
  engine : Policy.Engine := {}
  faults : List Fault := []
  counters : Counters := {}
  /-- Milliseconds that pauses took so far. -/
  time : Nat := 0
  /-- How often the clock was read. -/
  readings : Nat := 0
  /-- How many salts were drawn. -/
  salts : Nat := 0
  /-- The remarks so far, the newest first. -/
  journal : List Remark := []

namespace World

variable {σ : Type} [Backend σ]

/-- Lets time pass. Under a limit the pause may be cut short, which is `none`. -/
def pause (w : World σ) (limit : Option Nat) (ms : Nat) : Option Unit × World σ :=
  match limit with
  | some l =>
    if w.time + ms ≤ l then (some (), { w with time := w.time + ms })
    else (none, { w with time := max w.time l })
  | none => (some (), { w with time := w.time + ms })

/-- A call on the store of the given name, unless a planned fault strikes it. -/
def guarded {ρ : Type} (w : World σ) (limit : Option Nat) (name : String)
    (act : World σ → Option (Except StoreError ρ) × World σ) :
    Option (Except StoreError ρ) × World σ :=
  let (damage, faults) := Fault.strike name w.faults
  let w := { w with faults := faults }
  match damage with
  | none => act w
  | some (.fail e) => (some (.error e), w)
  | some .hang =>
    match w.pause limit Fault.hangTime with
    | (some (), w) => act w
    | (none, w) => (none, w)

/-- Waits for another session without an end: under a limit until it passes. -/
def block (w : World σ) (limit : Option Nat) : World σ :=
  { w with time := max w.time (limit.getD w.time) }

/-- One step, perhaps under a time limit. No answer means that the limit has passed, or, without
one, that the step can never be answered. -/
def step (env : Surroundings) (w : World σ) (limit : Option Nat) :
    (e : Effect) → Option e.Reply × World σ
  | .openSession =>
    w.guarded limit "session" fun w =>
      let (r, store) := Backend.openSession w.store
      (some r, { w with store := store })
  | .closeSession s => (some (), { w with store := Backend.closeSession w.store s })
  | .inTransaction s => (some (Backend.inTransaction w.store s), w)
  | .call s c =>
    w.guarded limit c.name fun w =>
      match Backend.call w.store s c with
      | (.answered r, store) => (some r, { w with store := store })
      | (.blocked, store) => (none, { w with store := store }.block limit)
  | .checkHealth =>
    w.guarded limit "health_check" fun w =>
      let (r, store) := Backend.checkHealth w.store
      (some r, { w with store := store })
  | .policy c =>
    let (r, engine) := w.engine.perform env.patterns c
    (some r, { w with engine := engine })
  | .wait ms => w.pause limit ms
  | .elapsed => (some w.time, w)
  | .readClock => (some (env.clock w.readings), { w with readings := w.readings + 1 })
  | .freshId s kind =>
    let (n, store) := Backend.serial w.store s kind
    (some (env.idName kind n), { w with store := store })
  | .freshSalt => (some (env.salt w.salts), { w with salts := w.salts + 1 })
  | .count e => (some (), { w with counters := w.counters.add e })
  | .note r => (some (), { w with journal := r :: w.journal })

/-- Runs a program to its end; `none` when it has to wait for ever. -/
def run {α : Type} (env : Surroundings) : Program α → World σ → Option α × World σ
  | .done a, w => (some a, w)
  | .ask e k, w =>
    match w.step env none e with
    | (some r, w) => run env (k r) w
    | (none, w) => (none, w)
  | .askBy l e k, w =>
    let (r, w) := w.step env (some l) e
    run env (k r) w

end World

end AccessAdmin
