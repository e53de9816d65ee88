import AccessAdmin.Crypto.PasswordHash
import AccessAdmin.Crypto.Seeded
import AccessAdmin.Database.Rehearsal
import AccessAdmin.Site
import AccessAdmin.Wire.Rows

/-!
# The program

Starts the service by the variables of the environment and answers the requests on the standard
input, one document on each line, by one document on each line of the standard output. A request
says at what time it comes under `at`; a request with `metrics` asks for the counters. A database is
rehearsed: a request brings its replies under `reply`.
-/

open AccessAdmin AccessAdmin.Wire

namespace AccessAdmin.CommandLine

/-- The variables that are looked at. -/
def variableNames : List String :=
  ["BIND", "METRICS_BIND", "STORAGE", "POSTGRES_URL", "POSTGRES_MAX_CONNECTIONS",
    "POSTGRES_CONNECT_TIMEOUT_MS", "POSTGRES_ACQUIRE_TIMEOUT_MS", "RECONCILE_INTERVAL_SECS",
    "ENFORCE", "REQUEST_TIMEOUT_MS", "ROOT_USERNAME", "MENU_SEED", "CONFIG"].map Config.fullName

/-- The value under a name. -/
def valueIn (pairs : List (String × String)) (name : String) : Option String := pairs.lookup name

/-- The values of the variables that are set. -/
def environment : List String → IO (List (String × String))
  | [] => return []
  | name :: rest => do
    let more ← environment rest
    match ← IO.getEnv name with
    | some value => return (name, value) :: more
    | none => return more

/-- The texts of the files that can be read. -/
def contents : List String → IO (List (String × String))
  | [] => return []
  | path :: rest => do
    let more ← contents rest
    try return (path, ← IO.FS.readFile path) :: more
    catch _ => return more

/-- The file that the variables name, and then the one that the configuration does. -/
def filesFor (vars : List (String × String)) : IO (List (String × String)) := do
  let named ← contents (valueIn vars (Config.fullName "CONFIG")).toList
  match Config.load (valueIn vars) (valueIn named) with
  | .ok c => return named ++ (← contents c.menuSeedPath.toList)
  | .error _ => return named

/-- The site after a request, and the document that is answered. -/
def exchange (seed : List UInt8) (site : Site Database.Rehearsal) (j : Json) :
    Json × Site Database.Rehearsal :=
  if j.flag "metrics" then (.texts site.metrics, site)
  else
    let scene := (j.items "reply").map Database.Reply.ofDocument
    let store := site.world.store.changePeer (·.scene scene)
    let site := { site with world := { site.world with store := store } }
    match Http.Request.ofDocument? j with
    | none => (.null, site)
    | some r =>
      let (response, site) := site.answer (Crypto.Seeded.surroundings seed (.ofPart j "at")) r
      (.orNull Http.Response.toJson response, site)

/-- Answers the lines of the input until it ends. -/
partial def loop (seed : List UInt8) (site : Site Database.Rehearsal) (input output : IO.FS.Stream) :
    IO Unit := do
  let line ← input.getLine
  if line.isEmpty then return
  let (answer, site) := exchange seed site (Json.read line)
  output.putStrLn answer.render
  output.flush
  loop seed site input output

end AccessAdmin.CommandLine

open AccessAdmin.CommandLine in
/-- Starts the service, or tells why it does not start. -/
def main : IO UInt32 := do
  let seed := (← IO.getRandomBytes 32).toList
  let vars ← environment variableNames
  let files ← filesFor vars
  let env := Crypto.Seeded.surroundings seed .customary
  let passwords := Crypto.PasswordHash.scheme {}
  match Site.start env passwords (valueIn vars) (valueIn files) ({} : Database.Rehearsal) with
  | .error e =>
    IO.eprintln e.message
    return 1
  | .ok site =>
    loop seed site (← IO.getStdin) (← IO.getStdout)
    return 0
