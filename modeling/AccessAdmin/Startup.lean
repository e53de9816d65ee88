import AccessAdmin.Config
import AccessAdmin.Service.Menus
import AccessAdmin.Wire.Records

/-!
# Starting

Before the first request is answered the service plants the seed of its menu tree, if it is
configured with one, and projects everything that is stored into the engine.

* `Startup.forestOf`: the seed that a file writes.
* `Startup.prepare`: what is done before the first request.
-/

namespace AccessAdmin

open Wire

/-- Why the service does not start. -/
inductive StartupError where
  | config (e : ConfigError)
  /-- The rows are to be kept in a database, and none is named. -/
  | noDatabase
  | store (e : StoreError)
  | missingSeed (path : String)
  /-- The seed is no list of menus. -/
  | badSeed
  | seeding (e : ServiceError)
  | projection (e : ProjectionError)

namespace StartupError

/-- What is reported at the end. -/
def message : StartupError → String
  | config _ => "admin config"
  | noDatabase => "postgres configuration missing"
  | store e => e.message
  | missingSeed path => "read PORTCULLIS_MENU_SEED: " ++ path
  | badSeed => "parse menu seed yaml"
  | seeding _ => "seed menus"
  | projection _ => "initial policy projection"

end StartupError

namespace Startup

/-- The seeds that a text writes. -/
def forestOf (text : String) : Except StartupError (List MenuSeed) :=
  match Yaml.read? text with
  | none => .error .badSeed
  | some doc => (Decode.list MenuSeed.decode doc).mapError fun _ => .badSeed

/-- The seeds of the file that the service is configured with, if it is. -/
def seedOf (c : Config) (files : String → Option String) :
    Except StartupError (Option (List MenuSeed)) :=
  match c.menuSeedPath with
  | none => .ok none
  | some path =>
    match files path with
    | none => .error (.missingSeed path)
    | some text => some <$> forestOf text

/-- Plants the seeds, if there are any. -/
def plant : Option (List MenuSeed) → ExceptT StartupError Program Unit
  | none => pure ()
  | some forest =>
    ExceptT.mk do
      let outcome ← (Menus.seed {} forest).run
      return (outcome.mapError StartupError.seeding).map fun _ => ()

/-- Projects everything that is stored. -/
def project : ExceptT StartupError Program Unit :=
  withSession StartupError.store fun s =>
    ExceptT.mk do
      let outcome ← (Projection.all s).run
      return (outcome.mapError StartupError.projection).map fun _ => ()

/-- What is done before the first request. -/
def prepare (seed : Option (List MenuSeed)) : ExceptT StartupError Program Unit := do
  plant seed
  project

end Startup

end AccessAdmin
