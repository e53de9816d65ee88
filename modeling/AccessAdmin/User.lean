import AccessAdmin.Text.Search
import AccessAdmin.Timestamp

/-!
# Users and their roles

A user holds roles by assignments. Only an enabled user is known to the policy.
-/

namespace AccessAdmin

/-- Whether a user may act. -/
inductive UserStatus where
  | enabled
  | disabled
deriving DecidableEq, Repr

namespace UserStatus

/-- The number under which a status is stored. -/
def code : UserStatus → Int
  | enabled => 1
  | disabled => 2

/-- The status stored under a number. -/
def ofCode? (n : Int) : Option UserStatus :=
  if n = 1 then some enabled else if n = 2 then some disabled else none

/-- The word for a status. -/
def name : UserStatus → String
  | enabled => "enabled"
  | disabled => "disabled"

/-- The status that a word names. -/
def ofName? (s : String) : Option UserStatus :=
  if s = "enabled" then some enabled else if s = "disabled" then some disabled else none

theorem ofCode?_code (s : UserStatus) : ofCode? s.code = some s := by
  cases s <;> rfl

end UserStatus

/-- One role held by one user. -/
structure Assignment where
  userId : String
  roleId : String
deriving DecidableEq, Repr

/-- A user. -/
structure User where
  id : String
  username : String
  realName : String
  passwordHash : String
  email : String
  phone : String
  status : UserStatus
  creator : String
  createdAt : Timestamp
  updatedAt : Timestamp
  rowId : Int
  roles : List Assignment
deriving DecidableEq, Repr

namespace User

/-- Whether the user may act. -/
def isEnabled (u : User) : Bool := u.status == .enabled

/-- The ids of the roles the user holds, in the order of the assignments. -/
def roleIds (u : User) : List String := u.roles.map Assignment.roleId

/-- The user as its own row, without the assignments. -/
def bare (u : User) : User := { u with roles := [] }

/-- The order of a listing: the newer row first. -/
def listedBefore (a b : User) : Bool := b.rowId ≤ a.rowId

end User

/-- What a caller says of a user. An empty password keeps the current one on update. -/
structure UserInput where
  username : String
  realName : String := ""
  password : String := ""
  email : String := ""
  phone : String := ""
  status : UserStatus := .enabled
  roleIds : List String := []
deriving DecidableEq, Repr

/-- The described assignments as rows of user `id`. -/
def UserInput.assignmentsFor (input : UserInput) (id : String) : List Assignment :=
  input.roleIds.map fun r => ⟨id, r⟩

/-- The profile of the calling user; `roleNames` is empty for the root user. -/
structure Profile where
  id : String
  username : String
  realName : String
  root : Bool
  roleNames : List String
deriving DecidableEq, Repr

/-- Which users a listing shows; a part that is absent admits every user. -/
structure UserFilter where
  ids : Option (List String) := none
  username : Option String := none
  likeUsername : Option String := none
  likeRealName : Option String := none
  status : Option UserStatus := none
  /-- Admits the users that hold one of these roles. -/
  roleIds : Option (List String) := none
deriving DecidableEq, Repr

namespace UserFilter

/-- The user with a given username. -/
def named (username : String) : UserFilter := { username := some username }

/-- The users that may act. -/
def enabled : UserFilter := { status := some .enabled }

/-- Whether a filter admits a user by its own row; assignments are looked at by the store. -/
def admits (f : UserFilter) (u : User) : Bool :=
  f.ids.all (·.contains u.id) && f.username.all (u.username == ·) &&
    f.likeUsername.all (Text.contains u.username) &&
    f.likeRealName.all (Text.contains u.realName) && f.status.all (u.status == ·)

end UserFilter

end AccessAdmin
