import AccessAdmin.Crypto.Sha384
import AccessAdmin.Database.Peer
import AccessAdmin.Store.Error
import AccessAdmin.Text.Utf8

/-!
# The schema

The tables of the database are created by one script, which is the first version of the schema. A
database that has it remembers the digest of the script; one that has another script, a version
that is not known here, or a version that was begun and not finished is refused.

* `Schema.bringUp`: creates the tables unless they are there.
-/

namespace AccessAdmin.Database.Schema

/-- The lines of the script. -/
def lines : List String :=
  ["CREATE TABLE IF NOT EXISTS menus (",
    "    row_id BIGSERIAL UNIQUE,",
    "    id TEXT PRIMARY KEY,",
    "    name TEXT NOT NULL,",
    "    sequence INTEGER NOT NULL DEFAULT 0,",
    "    icon TEXT NOT NULL DEFAULT '',",
    "    router TEXT NOT NULL DEFAULT '',",
    "    hidden BOOLEAN NOT NULL DEFAULT FALSE,",
    "    parent_id TEXT NOT NULL DEFAULT '',",
    "    parent_path TEXT NOT NULL DEFAULT '',",
    "    creator TEXT NOT NULL DEFAULT '',",
    "    created_at TIMESTAMPTZ NOT NULL DEFAULT now(),",
    "    updated_at TIMESTAMPTZ NOT NULL DEFAULT now()",
    ");",
    "",
    "CREATE INDEX IF NOT EXISTS menus_parent_id_idx ON menus (parent_id);",
    "CREATE INDEX IF NOT EXISTS menus_parent_path_idx ON menus (parent_path text_pattern_ops);",
    "",
    "CREATE TABLE IF NOT EXISTS menu_actions (",
    "    row_id BIGSERIAL PRIMARY KEY,",
    "    menu_id TEXT NOT NULL,",
    "    code TEXT NOT NULL,",
    "    name TEXT NOT NULL DEFAULT '',",
    "    UNIQUE (menu_id, code)",
    ");",
    "",
    "CREATE TABLE IF NOT EXISTS menu_resources (",
    "    row_id BIGSERIAL PRIMARY KEY,",
    "    menu_id TEXT NOT NULL,",
    "    code TEXT NOT NULL,",
    "    name TEXT NOT NULL DEFAULT '',",
    "    method TEXT NOT NULL DEFAULT '',",
    "    path TEXT NOT NULL DEFAULT '',",
    "    UNIQUE (menu_id, code)",
    ");",
    "",
    "CREATE TABLE IF NOT EXISTS roles (",
    "    row_id BIGSERIAL UNIQUE,",
    "    id TEXT PRIMARY KEY,",
    "    name TEXT NOT NULL UNIQUE,",
    "    sequence INTEGER NOT NULL DEFAULT 0,",
    "    memo TEXT NOT NULL DEFAULT '',",
    "    creator TEXT NOT NULL DEFAULT '',",
    "    created_at TIMESTAMPTZ NOT NULL DEFAULT now(),",
    "    updated_at TIMESTAMPTZ NOT NULL DEFAULT now()",
    ");",
    "",
    "CREATE TABLE IF NOT EXISTS role_menus (",
    "    row_id BIGSERIAL PRIMARY KEY,",
    "    role_id TEXT NOT NULL,",
    "    menu_id TEXT NOT NULL,",
    "    actions TEXT NOT NULL DEFAULT '',",
    "    resources TEXT NOT NULL DEFAULT '',",
    "    UNIQUE (role_id, menu_id)",
    ");",
    "",
    "CREATE INDEX IF NOT EXISTS role_menus_menu_id_idx ON role_menus (menu_id);",
    "",
    "CREATE TABLE IF NOT EXISTS users (",
    "    row_id BIGSERIAL UNIQUE,",
    "    id TEXT PRIMARY KEY,",
    "    username TEXT NOT NULL UNIQUE,",
    "    real_name TEXT NOT NULL DEFAULT '',",
    "    password_hash TEXT NOT NULL DEFAULT '',",
    "    email TEXT NOT NULL DEFAULT '',",
    "    phone TEXT NOT NULL DEFAULT '',",
    "    status SMALLINT NOT NULL DEFAULT 1,",
    "    creator TEXT NOT NULL DEFAULT '',",
    "    created_at TIMESTAMPTZ NOT NULL DEFAULT now(),",
    "    updated_at TIMESTAMPTZ NOT NULL DEFAULT now()",
    ");",
    "",
    "CREATE TABLE IF NOT EXISTS user_roles (",
    "    row_id BIGSERIAL PRIMARY KEY,",
    "    user_id TEXT NOT NULL,",
    "    role_id TEXT NOT NULL,",
    "    UNIQUE (user_id, role_id)",
    ");",
    "",
    "CREATE INDEX IF NOT EXISTS user_roles_role_id_idx ON user_roles (role_id);"]

/-- The script that creates the tables. -/
def script : String := String.join (lines.map fun l => l ++ "\n")

/-- The number of the version that the script makes. -/
def version : Int := 1

/-- The digest by which the script is known. -/
def digest : String := Crypto.hexText (Crypto.Sha384.digest (Text.Utf8.encode script))

/-- Whether a database remembers nothing that is not known here. -/
def isKnown (h : History) : Bool :=
  h.unfinished.isEmpty && h.finished.all fun v => v.1 == version

/-- The script in a transaction of its own. -/
def statements : List Statement := [.begin, .script script, .commit]

variable {π : Type} [Peer π]

/-- Sends statements up to the first that fails. -/
def sendAll (p : π) : List Statement → Except Failure Unit × π
  | [] => (.ok (), p)
  | s :: rest =>
    match Peer.execute p s with
    | (.error e, p) => (.error e, p)
    | (.ok _, p) => sendAll p rest

/-- What is reported when the schema cannot be brought up. -/
def refusal : StoreError := .unexpected "run migrations"

/-- Creates the tables unless they are there. -/
def bringUp (p : π) : Except StoreError Unit × π :=
  let h := Peer.history p
  if !isKnown h then (.error refusal, p)
  else
    match h.finished.lookup version with
    | some d => (if d = digest then .ok () else .error refusal, p)
    | none =>
      let (r, p) := sendAll p statements
      (r.mapError fun _ => refusal, p)

end AccessAdmin.Database.Schema
