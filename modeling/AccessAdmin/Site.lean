import AccessAdmin.Database.Pool
import AccessAdmin.Http.Api
import AccessAdmin.Http.Exchange
import AccessAdmin.Startup

/-!
# The running service

A site is the service with everything it acts on: the interface, the store that it is configured
with, the engine and the counters. It is started once, and then answers one request after the other.

* `Site.start`: a site by its configuration.
* `Site.answer`: the response to a request.
-/

namespace AccessAdmin

open Http

/-- Rows in memory, or in a database that is reached through a pool. -/
inductive Storehouse (π : Type) where
  | memory (m : MemoryStore)
  | database (pool : Database.Pool π)

namespace Storehouse

variable {π : Type} [Database.Peer π]

instance : Backend (Storehouse π) where
  openSession
    | memory m => let (r, m) := Backend.openSession m; (r, memory m)
    | database p => let (r, p) := Backend.openSession p; (r, database p)
  closeSession
    | memory m, s => memory (Backend.closeSession m s)
    | database p, s => database (Backend.closeSession p s)
  inTransaction
    | memory m, s => Backend.inTransaction m s
    | database p, s => Backend.inTransaction p s
  call
    | memory m, s, c => let (r, m) := Backend.call m s c; (r, memory m)
    | database p, s, c => let (r, p) := Backend.call p s c; (r, database p)
  checkHealth
    | memory m => let (r, m) := Backend.checkHealth m; (r, memory m)
    | database p => let (r, p) := Backend.checkHealth p; (r, database p)
  serial
    | memory m, s, kind => let (r, m) := Backend.serial m s kind; (r, memory m)
    | database p, s, kind => let (r, p) := Backend.serial p s kind; (r, database p)

/-- The store that a configuration asks for, where databases answer as the given peer. -/
def reach (c : Config) (peer : π) : Except StartupError (Storehouse π) :=
  match c.storage with
  | .memory => .ok (memory {})
  | .postgres =>
    match c.database with
    | none => .error .noDatabase
    | some settings =>
      match Database.Pool.connect settings peer with
      | (.ok _, pool) => .ok (database pool)
      | (.error e, _) => .error (.store e)

/-- Changes the peer, if there is one. -/
def changePeer (f : π → π) : Storehouse π → Storehouse π
  | memory m => memory m
  | database p => database { p with peer := f p.peer }

/-- The peer, if there is one. -/
def peer? : Storehouse π → Option π
  | memory _ => none
  | database p => some p.peer

end Storehouse

/-- The running service. -/
structure Site (π : Type) where
  api : Api
  world : World (Storehouse π)

namespace Site

variable {π : Type} [Database.Peer π]

/-- The interface by a configuration. -/
def apiOf (c : Config) (passwords : PasswordScheme) : Api :=
  { users := { rootUsername := c.rootUsername, passwords := passwords }
    enforce := c.enforce
    timeout := c.requestTimeout
    storageBackend := c.storage.name
    durableStorage := c.storage.isDurable }

/-- A site on a store, after it was prepared. -/
def prepared (env : Surroundings) (api : Api) (seed : Option (List MenuSeed))
    (store : Storehouse π) : Except StartupError (Site π) :=
  match World.run env (Startup.prepare seed).run { store := store } with
  | (some (.error e), _) => .error e
  | (_, w) => .ok ⟨api, w⟩

/-- A site by the variables of an environment and the files that they name. The first fault is
reported: in the configuration, in reaching the store, in the seed. -/
def start (env : Surroundings) (passwords : PasswordScheme) (vars : Config.Variables)
    (files : String → Option String) (peer : π) : Except StartupError (Site π) := do
  let config ← (Config.load vars files).mapError StartupError.config
  let store ← Storehouse.reach config peer
  let seed ← Startup.seedOf config files
  prepared env (apiOf config passwords) seed store

/-- The response to a request, as it is sent; `none` when a decision came to a pattern that cannot
be compiled. -/
def answer (env : Surroundings) (site : Site π) (r : Request) : Option Response × Site π :=
  let (response, w) := World.run env (site.api.handle r) site.world
  (response.join.map (·.sent r.method), { site with world := w })

/-- What the counters have counted so far. -/
def metrics (site : Site π) : List String := site.world.counters.report

end Site

end AccessAdmin
