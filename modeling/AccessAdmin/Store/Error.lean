/-!
# Store errors

Why a store refuses or fails, and the wording.
-/

namespace AccessAdmin

/-- Why a call on the store came to nothing. -/
inductive StoreError where
  /-- The row to be changed is not there. -/
  | notFound (what : String)
  /-- A row with the same key is there. -/
  | conflict (what : String)
  /-- The call does not fit the state of the session's transaction. -/
  | transaction (state : String)
  /-- The store itself failed. -/
  | unexpected (text : String)
  /-- The call broke off at a position that is no machine word, and what waits for it breaks off as
  well. -/
  | overflow
deriving DecidableEq, Repr

/-- The wording of a store error. -/
def StoreError.message : StoreError → String
  | notFound what => "not found: " ++ what
  | conflict what => "conflict: " ++ what
  | transaction state => "transaction state: " ++ state
  | unexpected text => text
  | overflow => "attempt to multiply with overflow"

end AccessAdmin
