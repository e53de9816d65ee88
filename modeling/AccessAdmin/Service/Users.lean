import AccessAdmin.Service.Roles

/-!
# Maintaining users

Creates, updates and deletes users together with their assignments, and looks after their status
and passwords. The root user has no stored record: its name is configured and reserved. An enabled
user is projected after the commit; of a disabled one the engine holds nothing.
-/

namespace AccessAdmin

/-- How passwords are kept: by a salted hash from which a password can be checked. -/
structure PasswordScheme where
  hash : ByteArray → String → String
  verify : String → String → Bool

/-- What the user operations are configured with. -/
structure UserPolicy where
  rootUsername : String := "root"
  passwords : PasswordScheme

namespace UserPolicy

/-- Whether a name is the root user's. -/
def isRoot (p : UserPolicy) (userId : String) : Bool := userId == p.rootUsername

/-- The hash of a password with a fresh salt. -/
def hashed (p : UserPolicy) (password : String) : Service String := do
  return p.passwords.hash (← Service.perform .freshSalt) password

end UserPolicy

namespace Users

/-! ## Checking the input -/

/-- Why a description of a user is refused, if it is. -/
def fault? (p : UserPolicy) (input : UserInput) : Option String :=
  if Text.isAllBlank input.username then some "username is required"
  else if input.username = p.rootUsername then some s!"username {input.username} is reserved"
  else (firstDuplicate input.roleIds).map fun id => s!"role {id} assigned twice"

/-- Refuses a description that has a fault. -/
def validate (p : UserPolicy) (input : UserInput) : Service Unit :=
  match fault? p input with
  | none => pure ()
  | some text => Service.refuse (.validation text)

/-- Refuses a username that another user has. -/
def ensureUsernameFree (s : Session) (username : String) (own : Option String) : Service Unit := do
  let named := (← s.ask (.queryUsers (.named username) none)).data
  if named.any fun u => some u.id != own then
    Service.refuse (.validation s!"username {username} already exists")

/-- Refuses roles that are not stored. -/
def ensureRolesExist (s : Session) (roleIds : List String) : Service Unit := do
  let found ← Roles.withIds s roleIds
  match roleIds.find? fun id => !found.any (·.id == id) with
  | some id => Service.refuse (.notFound s!"role {id} not found")
  | none => return

/-! ## Reading -/

/-- Loads the assignments of some users. -/
def attachRoles (s : Session) (users : List User) : Service (List User) := do
  if users.isEmpty then
    return users
  else
    return distribute User.id Assignment.userId (fun u rows => { u with roles := rows })
      (← s.ask (.listUserRoles (users.map User.id))) users

/-- One user. -/
def get (ctx : Context) (id : String) (options : ListingOptions) : Service User :=
  Service.session fun s => do
    match ← ctx.bounded (s.ask (.getUser id)) with
    | none => Service.refuse (.notFound s!"user {id} not found")
    | some user =>
      if options.roles then
        let users ← ctx.bounded (attachRoles s [user])
        return users.headD user
      else return user

/-- A listing of users. -/
def query (ctx : Context) (filter : UserFilter) (options : ListingOptions) :
    Service (Listing User) :=
  Service.session fun s => do
    let found ← ctx.bounded (s.ask (.queryUsers filter options.pagination))
    if options.roles then
      let data ← ctx.bounded (attachRoles s found.data)
      return ⟨data, found.page⟩
    else return found

/-! ## Writing -/

/-- Brings the engine up to date with a user after a commit. -/
def syncPolicy (s : Session) (id : String) : UserStatus → Service Unit
  | .enabled => Projecting.afterCommit (discard (Projection.user s id))
  | .disabled => Projecting.afterCommit (Projection.removeUser id)

/-- Inserts a user with its assignments. -/
def insert (s : Session) (actor hash : String) (input : UserInput) : Service User := do
  ensureUsernameFree s input.username none
  ensureRolesExist s input.roleIds
  let id ← Service.perform (.freshId s.id .user)
  let now ← Service.perform .readClock
  let user : User :=
    { id := id
      username := input.username
      realName := input.realName
      passwordHash := hash
      email := input.email
      phone := input.phone
      status := input.status
      creator := actor
      createdAt := now
      updatedAt := now
      rowId := 0
      roles := input.assignmentsFor id }
  s.change (.createUser user)
  s.changeAll (user.roles.map .createUserRole)
  return user

/-- Creates a user; a password is required. -/
def create (p : UserPolicy) (ctx : Context) (input : UserInput) : Service User := do
  validate p input
  if input.password.isEmpty then
    Service.refuse (.validation "password is required")
  else
    let hash ← p.hashed input.password
    Service.session fun s => do
      let user ← ctx.transaction s (insert s ctx.actor hash input)
      syncPolicy s user.id user.status
      return user

/-- Replaces the assignments of a user; one that stays is left as it is. -/
def syncRoles (s : Session) (id : String) (input : UserInput) : Service Unit := do
  let plan :=
    Changeset.between Assignment.roleId (← s.ask (.listUserRoles [id])) (input.assignmentsFor id)
  s.changeAll (plan.delete.map fun a => .deleteUserRole id a.roleId)
  s.changeAll (plan.create.map .createUserRole)

/-- Updates a stored user with its assignments, its status if it changes, and its password if there
is a new one. -/
def applyUpdate (s : Session) (id : String) (hash : Option String) (input : UserInput) :
    Service User := do
  match ← s.ask (.getUser id) with
  | none => Service.refuse (.notFound s!"user {id} not found")
  | some old =>
    ensureUsernameFree s input.username (some id)
    ensureRolesExist s input.roleIds
    syncRoles s id input
    let now ← Service.perform .readClock
    let user : User :=
      { old with
        username := input.username
        realName := input.realName
        email := input.email
        phone := input.phone
        updatedAt := now }
    s.change (.updateUser user)
    if user.status != input.status then
      s.change (.updateUserStatus id input.status)
    if let some hash := hash then
      s.change (.updateUserPassword id hash)
    return { user with
      status := input.status
      passwordHash := hash.getD user.passwordHash
      roles := input.assignmentsFor id }

/-- Updates a user; an empty password keeps the stored one. -/
def update (p : UserPolicy) (ctx : Context) (id : String) (input : UserInput) : Service User := do
  validate p input
  let hash ← if input.password.isEmpty then pure none else some <$> p.hashed input.password
  Service.session fun s => do
    let user ← ctx.transaction s (applyUpdate s id hash input)
    syncPolicy s user.id user.status
    return user

/-- Removes a user with its assignments. -/
def remove (s : Session) (id : String) : Service Unit := do
  match ← s.ask (.getUser id) with
  | none => Service.refuse (.notFound s!"user {id} not found")
  | some _ =>
    s.change (.deleteUserRoles id)
    s.change (.deleteUser id)

/-- Deletes a user and what the engine holds of it. -/
def delete (ctx : Context) (id : String) : Service Unit :=
  Service.session fun s => do
    ctx.transaction s (remove s id)
    Projecting.afterCommit (Projection.removeUser id)

/-- Sets the status of a stored user. -/
def setStatus (s : Session) (id : String) (status : UserStatus) : Service Unit := do
  match ← s.ask (.getUser id) with
  | none => Service.refuse (.notFound s!"user {id} not found")
  | some _ => s.change (.updateUserStatus id status)

/-- Enables or disables a user. -/
def updateStatus (ctx : Context) (id : String) (status : UserStatus) : Service Unit :=
  Service.session fun s => do
    ctx.transaction s (setStatus s id status)
    syncPolicy s id status

/-- Sets a user's password. -/
def updatePassword (p : UserPolicy) (ctx : Context) (id password : String) : Service Unit := do
  if password.isEmpty then
    Service.refuse (.validation "password is required")
  else
    let hash ← p.hashed password
    Service.session fun s => ctx.transaction s (s.change (.updateUserPassword id hash))

/-! ## On the caller's own behalf -/

/-- Whether a password is the one of an enabled user with this name. -/
def verifyPassword (p : UserPolicy) (ctx : Context) (username password : String) : Service Bool :=
  Service.session fun s => do
    let found ← ctx.bounded (s.ask (.queryUsers (.named username) none))
    return found.data.head?.any fun u => u.isEnabled && p.passwords.verify u.passwordHash password

/-- The profile of the calling user. -/
def current (p : UserPolicy) (ctx : Context) (userId : String) : Service Profile := do
  if p.isRoot userId then
    return ⟨userId, p.rootUsername, p.rootUsername, true, []⟩
  else
    Service.session fun s => do
      let user ← Menus.activeUser ctx s userId
      let roleIds :=
        (← ctx.bounded (s.ask (.listUserRoles [user.id]))).map Assignment.roleId
      let roles ← ctx.bounded (Roles.withIds s roleIds)
      return ⟨user.id, user.username, user.realName, false, roles.map Role.name⟩

/-- Changes the caller's own password; the old one has to be right. The root user's password is no
stored one. -/
def changeOwnPassword (p : UserPolicy) (ctx : Context) (userId old new : String) :
    Service Unit := do
  if p.isRoot userId then
    Service.refuse (.validation "root password is managed by configuration")
  else if new.isEmpty then
    Service.refuse (.validation "new password is required")
  else
    let user ← Service.session fun s => Menus.activeUser ctx s userId
    if ← verifyPassword p ctx user.username old then
      updatePassword p ctx userId new
    else
      Service.refuse (.validation "old password is incorrect")

end Users

end AccessAdmin
