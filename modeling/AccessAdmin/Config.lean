import AccessAdmin.Net.SocketAddress
import AccessAdmin.Text.Number
import AccessAdmin.Wire.Shape
import AccessAdmin.Wire.Yaml

/-!
# Configuration

The service is configured by variables of its environment, and by a file that one of them names.
What the file says takes the place of what the variables say. The first fault is reported, in the
order in which the settings are read.

* `Config.ofVariables`: the configuration by variables alone.
* `Config.load`: the configuration by variables and the file.
-/

namespace AccessAdmin

open Net Text Wire

/-- Where the rows are kept. -/
inductive Storage where
  | memory
  | postgres
deriving DecidableEq, Repr

namespace Storage

/-- The word for a storage. -/
def name : Storage → String
  | memory => "memory"
  | postgres => "postgres"

/-- The storage that a word names. -/
def ofName? (s : String) : Option Storage := [memory, postgres].find? (·.name == s)

/-- Whether rows outlive the service. -/
def isDurable : Storage → Bool
  | memory => false
  | postgres => true

end Storage

/-- How a database is reached. -/
structure DatabaseSettings where
  url : String
  maxConnections : Nat := 10
  /-- The milliseconds that connecting may take. -/
  connectTimeout : Nat := 5000
  /-- The milliseconds that may pass before a connection is free. -/
  acquireTimeout : Nat := 5000
deriving DecidableEq, Repr

/-- Why there is no configuration. -/
inductive ConfigError where
  /-- The setting of this name is not readable. -/
  | badSetting (name : String)
  | unknownStorage (name : String)
  | missingFile (path : String)
  | badFile
deriving DecidableEq, Repr

/-- The wording of a fault in the configuration. -/
def ConfigError.message : ConfigError → String
  | badSetting name => "parse " ++ name
  | unknownStorage name => "unknown PORTCULLIS_STORAGE backend: " ++ name
  | missingFile path => "read PORTCULLIS_CONFIG: " ++ path
  | badFile => "parse admin config yaml"

/-- The configuration of the service. -/
structure Config where
  bindAddress : SocketAddress := .v4 [0, 0, 0, 0] 8088
  metricsAddress : SocketAddress := .v4 [0, 0, 0, 0] 9090
  storage : Storage := .memory
  database : Option DatabaseSettings := none
  rootUsername : String := "root"
  enforce : Bool := true
  /-- The milliseconds that a request may take. -/
  requestTimeout : Nat := 10000
  /-- The seconds between projections of everything, if there are any. -/
  reconcileInterval : Option Nat := none
  menuSeedPath : Option String := none
deriving DecidableEq, Repr

namespace Config

/-- The variables of an environment. -/
abbrev Variables : Type := String → Option String

/-- The value of a setting, or a fault that names it. -/
def parse {α : Type} (name : String) (read : String → Option α) (text : String) :
    Except ConfigError α :=
  match read text with
  | some a => .ok a
  | none => .error (.badSetting name)

/-- The name of a variable of the service. -/
def fullName (name : String) : String := "PORTCULLIS_" ++ name

/-- The value of a variable, if it is set. -/
def setting? {α : Type} (vars : Variables) (name : String) (read : String → Option α) :
    Except ConfigError (Option α) :=
  match vars (fullName name) with
  | none => .ok none
  | some text => some <$> parse (fullName name) read text

/-- The value of a variable, or a given one. -/
def setting {α : Type} (vars : Variables) (name : String) (read : String → Option α)
    (default : α) : Except ConfigError α := do
  return (← setting? vars name read).getD default

/-- The storage that a variable names, in whatever case. -/
def storageOf (vars : Variables) : Except ConfigError Storage :=
  match vars (fullName "STORAGE") with
  | none => .ok .memory
  | some text =>
    let name := text.map Char.toLower
    match Storage.ofName? name with
    | some s => .ok s
    | none => .error (.unknownStorage name)

/-- How the variables say a database is reached. -/
def databaseOf (vars : Variables) : Except ConfigError (Option DatabaseSettings) :=
  match vars (fullName "POSTGRES_URL") with
  | none => .ok none
  | some url => do
    let max ← setting vars "POSTGRES_MAX_CONNECTIONS" (Number.natUpTo? (UInt32.size - 1)) 10
    let connect ← setting vars "POSTGRES_CONNECT_TIMEOUT_MS" Number.uint64? 5000
    let acquire ← setting vars "POSTGRES_ACQUIRE_TIMEOUT_MS" Number.uint64? 5000
    return some ⟨url, max, connect, acquire⟩

/-- The configuration by variables alone. -/
def ofVariables (vars : Variables) : Except ConfigError Config := do
  let standard : Config := {}
  let bind ← setting vars "BIND" SocketAddress.ofText? standard.bindAddress
  let metrics ← setting vars "METRICS_BIND" SocketAddress.ofText? standard.metricsAddress
  let storage ← storageOf vars
  let database ← databaseOf vars
  let interval ← setting? vars "RECONCILE_INTERVAL_SECS" Number.uint64?
  let enforce ← setting vars "ENFORCE" Number.bool? true
  let timeout ← setting vars "REQUEST_TIMEOUT_MS" Number.uint64? standard.requestTimeout
  return {
    bindAddress := bind
    metricsAddress := metrics
    storage := storage
    database := database
    rootUsername := (vars (fullName "ROOT_USERNAME")).getD standard.rootUsername
    enforce := enforce
    requestTimeout := timeout
    reconcileInterval := interval
    menuSeedPath := vars (fullName "MENU_SEED") }

/-! ## The file -/

/-- What a file says; a part that it does not name is left as it is. -/
structure Overrides where
  bindAddress : Option String
  metricsAddress : Option String
  storage : Option Storage
  database : Option DatabaseSettings
  rootUsername : Option String
  enforce : Option Bool
  requestTimeout : Option Nat
  reconcileInterval : Option Nat
  menuSeedPath : Option String

/-- The fields of a database in the file. -/
def databaseShape : Shape DatabaseSettings :=
  let count : Decoder Nat := fun j => UInt32.toNat <$> Decode.uint32 j
  DatabaseSettings.mk <$> .required "url" Decode.text <*> .optional "max_connections" count 10
    <*> .optional "connect_timeout_ms" Decode.uint64 5000
    <*> .optional "acquire_timeout_ms" Decode.uint64 5000

/-- The fields of the file. -/
def overridesShape : Shape Overrides :=
  let storage := Decode.variant Storage.ofName? ["memory", "postgres"]
  Overrides.mk <$> .nullable "bind_addr" Decode.text <*> .nullable "metrics_bind" Decode.text
    <*> .nullable "storage" storage <*> .nullable "postgres" databaseShape.decode
    <*> .nullable "root_username" Decode.text <*> .nullable "enforce" Decode.bool
    <*> .nullable "request_timeout_ms" Decode.uint64
    <*> .nullable "reconcile_interval_secs" Decode.uint64
    <*> .nullable "menu_seed_path" Decode.text

/-- What the text of a file says. -/
def overridesOf (text : String) : Except ConfigError Overrides :=
  match Yaml.read? text with
  | none => .error .badFile
  | some doc =>
    match overridesShape.decode doc with
    | .ok o => .ok o
    | .error _ => .error .badFile

/-- An address that a file gives under a name, or the one there was. -/
def address (name : String) (old : SocketAddress) :
    Option String → Except ConfigError SocketAddress
  | none => .ok old
  | some text => parse name SocketAddress.ofText? text

/-- The configuration with what a file says. -/
def overriddenBy (c : Config) (o : Overrides) : Except ConfigError Config := do
  let bind ← address "bind_addr" c.bindAddress o.bindAddress
  let metrics ← address "metrics_bind" c.metricsAddress o.metricsAddress
  return {
    bindAddress := bind
    metricsAddress := metrics
    storage := o.storage.getD c.storage
    database := o.database <|> c.database
    rootUsername := o.rootUsername.getD c.rootUsername
    enforce := o.enforce.getD c.enforce
    requestTimeout := o.requestTimeout.getD c.requestTimeout
    reconcileInterval := o.reconcileInterval <|> c.reconcileInterval
    menuSeedPath := o.menuSeedPath <|> c.menuSeedPath }

/-- The configuration by variables and the file that one of them names; `files` gives the text of a
file that can be read. -/
def load (vars : Variables) (files : String → Option String) : Except ConfigError Config := do
  let c ← ofVariables vars
  match vars (fullName "CONFIG") with
  | none => return c
  | some path =>
    match files path with
    | none => .error (.missingFile path)
    | some text => c.overriddenBy (← overridesOf text)

end Config

end AccessAdmin
