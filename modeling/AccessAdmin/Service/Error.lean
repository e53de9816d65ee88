import AccessAdmin.Policy.Engine
import AccessAdmin.Store.Error

/-!
# Errors of the services

A service refuses a request, or fails because the store or the engine failed. The kind of the error
says what became of the caller's change: after `policy` it is stored but the engine may lag behind
it, after every other error it is not stored.

* `ServiceError.ofStore`: what a store error means to the caller of a service.
-/

namespace AccessAdmin

/-- Why the rules of a subject could not be brought up to date. -/
inductive ProjectionError where
  | store (e : StoreError)
  | engine (e : Policy.EngineError)
deriving DecidableEq, Repr

/-- The wording of a projection error. -/
def ProjectionError.message : ProjectionError → String
  | store e => "load assignments: " ++ e.message
  | engine e => "policy engine: " ++ e.message

/-- Why a service did not do what it was asked for. -/
inductive ServiceError where
  | notFound (text : String)
  | validation (text : String)
  /-- The caller is known but may not use this operation. -/
  | forbidden (text : String)
  | storage (e : StoreError)
  /-- The change is stored, but the engine was not brought up to date. -/
  | policy (e : ProjectionError)
  /-- The deadline passed before the work was done. -/
  | cancelled
deriving DecidableEq, Repr

namespace ServiceError

/-- The wording of a service error. -/
def message : ServiceError → String
  | notFound text => text
  | validation text => text
  | forbidden text => text
  | storage e => "storage failure: " ++ e.message
  | policy e => "write committed but policy projection failed: " ++ e.message
  | cancelled => "operation cancelled"

/-- A missing row and a taken key are the caller's concern; any other store error is a failure of
the storage. -/
def ofStore : StoreError → ServiceError
  | .notFound what => notFound (what ++ " not found")
  | .conflict what => validation ("duplicate value: " ++ what)
  | e => storage e

end ServiceError

end AccessAdmin
