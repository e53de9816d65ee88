import AccessAdmin.Config
import AccessAdmin.Database.Address
import AccessAdmin.Database.Calls
import AccessAdmin.Database.Schema
import AccessAdmin.World

/-!
# The pool of connections

Sessions share some connections to one peer. A session with a transaction keeps a connection until
the transaction ends, whether it ends well or not; any other call takes one for its own time. When
every connection is taken, a call that needs one is refused.

* `Pool.connect`: the pool by the settings, with the schema brought up.
* `Pool.call`: one call of one session.
-/

namespace AccessAdmin.Database

open Store

/-- Connections to a peer. -/
structure Pool (π : Type) where
  peer : π
  /-- How many connections there may be. -/
  size : Nat
  /-- The sessions that have a transaction open. -/
  holders : List SessionId := []
  /-- How many sessions were opened. -/
  opened : Nat := 0
  /-- How many ids were given out. -/
  ids : Nat := 0

namespace Pool

variable {π : Type} [Peer π]

/-! ## Connecting -/

/-- Whether a refusal may be over soon, so that connecting is tried again. -/
def isPassing (f : Failure) : Bool := f.code == "53300" || f.code == "57P03"

/-- Whether connecting comes to an end only because its time is up. -/
def isHopeless (size : Nat) : Greeting → Bool
  | .welcome => size == 0
  | .silence => true
  | .refusal f => size == 0 || isPassing f

/-- What is reported when the first connection does not come about. Connecting has a time of its
own, which may be up before that for a connection. -/
def connectError (settings : DatabaseSettings) (g : Greeting) : StoreError :=
  if isHopeless settings.maxConnections g ∧ settings.connectTimeout < settings.acquireTimeout then
    .unexpected "connect postgres pool: timed out"
  else .unexpected "connect postgres pool"

/-- Whether the first connection comes about. -/
def isReached (settings : DatabaseSettings) (g : Greeting) : Bool :=
  g == .welcome && settings.maxConnections != 0

/-- The pool by some settings. -/
def connect (settings : DatabaseSettings) (p : π) : Except StoreError Unit × Pool π :=
  let pool (p : π) : Pool π := { peer := p, size := settings.maxConnections }
  match Address.ofUrl? settings.url with
  | none => (.error (.unexpected "parse postgres connection url"), pool p)
  | some _ =>
    if isReached settings (Peer.greeting p) then
      let (r, p) := Schema.bringUp p
      (r, pool p)
    else (.error (connectError settings (Peer.greeting p)), pool p)

/-! ## Sessions -/

/-- Whether a session has a transaction open. -/
def inTransaction (pool : Pool π) (s : SessionId) : Bool := pool.holders.contains s

/-- Whether there is a connection for a session. -/
def hasRoom (pool : Pool π) (s : SessionId) : Bool :=
  pool.inTransaction s || pool.holders.length < pool.size

/-- Work on a connection. -/
def work {α : Type} (pool : Pool π) (w : Work π α) : Except StoreError α × Pool π :=
  let (r, p) := w.run pool.peer
  (r, { pool with peer := p })

/-- Ends the transaction of a session by a statement; it is over even if that fails. -/
def finish (pool : Pool π) (s : SessionId) (name : String) (end_ : Statement) :
    Except StoreError Unit × Pool π :=
  if pool.inTransaction s then
    let (r, pool) := pool.work (discard (send name end_))
    (r, { pool with holders := pool.holders.erase s })
  else (.error (.transaction "no open transaction"), pool)

/-- Opens a transaction for a session. -/
def begin (pool : Pool π) (s : SessionId) : Except StoreError Unit × Pool π :=
  if pool.inTransaction s then (.error (.transaction "transaction already open"), pool)
  else if pool.hasRoom s then
    match pool.work (send "begin transaction" .begin) with
    | (.ok _, pool) => (.ok (), { pool with holders := s :: pool.holders })
    | (.error e, pool) => (.error e, pool)
  else (.error (.unexpected "begin transaction"), pool)

/-- Work of a session on its own connection or on one for the time of the work. -/
def onConnection {α : Type} (pool : Pool π) (s : SessionId) (w : Work π α) :
    Except StoreError α × Pool π :=
  if pool.hasRoom s then pool.work w else (.error (.unexpected "acquire connection"), pool)

/-- One call of a session. -/
def call (pool : Pool π) (s : SessionId) : (c : Call) → Except StoreError c.Reply × Pool π
  | .begin => pool.begin s
  | .commit => pool.finish s "commit transaction" .commit
  | .rollback => pool.finish s "rollback transaction" .rollback
  | .read r => pool.onConnection s r.ask
  | .write w => pool.onConnection s w.apply

/-- Whether the peer answers at all. -/
def checkHealth (pool : Pool π) : Except StoreError Unit × Pool π :=
  if pool.holders.length < pool.size then pool.work (discard (send "health check" .ping))
  else (.error (.unexpected "health check"), pool)

instance : Backend (Pool π) where
  openSession pool := (.ok pool.opened, { pool with opened := pool.opened + 1 })
  closeSession pool s := { pool with holders := pool.holders.erase s }
  inTransaction := inTransaction
  call pool s c :=
    let (r, pool) := pool.call s c
    (.answered r, pool)
  checkHealth := checkHealth
  serial pool _ _ := (pool.ids + 1, { pool with ids := pool.ids + 1 })

end Pool

end AccessAdmin.Database
