import AccessAdmin.Http.Admission
import AccessAdmin.Http.Bodies
import AccessAdmin.Http.Endpoint
import AccessAdmin.Http.Query
import AccessAdmin.Service.Users
import AccessAdmin.Wire.Records

/-!
# The interface

A request goes to the endpoint at its path, if it is admitted. An endpoint reads the ids in the
path, then the query, then the body, and answers what the service did. An unknown path is answered
before the caller is looked at, a method that the path does not have only afterwards.

* `Api.handle`: the response to a request.
-/

namespace AccessAdmin.Http

open Wire

/-- What the interface is configured with. -/
structure Api where
  users : UserPolicy
  enforce : Bool := true
  /-- The milliseconds that a request may take. -/
  timeout : Nat := 5000
  storageBackend : String := "memory"
  durableStorage : Bool := false
  /-- How a decision on a request is asked for. -/
  ask : Asking := .engine

/-- Why an endpoint stops: with a response, or breaking off at a pattern that cannot be compiled or
at a page that does not fit. -/
inductive Stop where
  | answer (r : Response)
  | stuck

/-- How an endpoint stops at an error of a service: with what is told of it, unless the arithmetic of
a page broke the work off. -/
def Stop.ofService : ServiceError → Stop
  | .storage .overflow => .stuck
  | e => .answer (Refusal.ofService e).response

/-- The work of an endpoint. -/
abbrev Handler (α : Type) : Type := ExceptT Stop Program α

namespace Handler

variable {α : Type}

/-- Stops with a response. -/
def answer (r : Response) : Handler α := ExceptT.mk (pure (.error (.answer r)))

/-- Stops with a refusal. -/
def refuse (r : Refusal) : Handler α := answer r.response

/-- A value, or a response with a status alone. -/
def orStatus : Except Nat α → Handler α
  | .ok a => pure a
  | .error status => answer (.bare status)

/-- The id in a place of the path. -/
def pathId (ids : List String) : Handler String :=
  match Text.Percent.decode? (ids.headD "") with
  | some id => pure id
  | none => answer (.bare 400)

/-- The query of a request. -/
def query (r : Request) (shape : Shape α) : Handler α :=
  match shape.decode (Query.document (r.target.query.getD "")) with
  | .ok a => pure a
  | .error _ => answer (.bare 400)

/-- The body of a request. -/
def body (r : Request) (shape : Shape α) : Handler α := orStatus (r.document shape.decode)

/-- The calling user, who has to be named. -/
def caller (r : Request) : Handler String :=
  match r.headers.identity with
  | some user => pure user
  | none => refuse .noIdentity

end Handler

namespace Api

open Handler

variable {α : Type}

/-- The gate before the endpoints. -/
def gate (api : Api) : Gate := ⟨api.users.rootUsername, api.enforce⟩

/-- Work of a service for the caller, to be done within the time for a request. -/
def serve (api : Api) (r : Request) (work : Context → Service α) : Handler α :=
  ExceptT.mk do
    let now ← Program.perform .elapsed
    let ctx : Context := ⟨r.headers.identity.getD "anonymous", some (now + api.timeout)⟩
    match ← (work ctx).run with
    | .ok a => return .ok a
    | .error e => return .error (.ofService e)

/-- Projects everything anew. -/
def reload : Handler Response :=
  ExceptT.mk do
    let failed (text : String) : Except Stop Response := .error (.answer (Refusal.internal text).response)
    match ← Program.perform .openSession with
    | .error _ => return failed "failed to open session"
    | .ok id =>
      let result ← (Projection.all ⟨id⟩).run
      Program.perform (.closeSession id)
      match result with
      | .ok summary => return .ok (.json 200 summary.toJson)
      | .error (.store _) => return failed "failed to load assignments"
      | .error (.engine _) => return failed "policy reload failed"

/-- Asks the engine a question. -/
def check (q : Question) : Handler Response :=
  ExceptT.mk do
    match ← Program.perform (.policy (.evaluate q.subject q.path q.method)) with
    | some allowed => return .ok (.json 200 (Answer.toJson ⟨allowed⟩))
    | none => return .error .stuck

/-- Everything the engine holds. -/
def rules : Handler Response := do
  let held ← (Program.perform (.policy .snapshot) : Program _)
  return .json 200 held.toJson

/-- How the store is. -/
def health : Handler Response :=
  ExceptT.mk do
    match ← Program.perform .checkHealth with
    | .ok _ => return .ok (.json 200 (Health.toJson {}))
    | .error _ => return .error (.answer (Refusal.internal "storage unavailable").response)

/-- The documents of some trees. -/
def forestJson (trees : List MenuTree) : Json := .arr (MenuTree.toJsonAll trees)

/-- The menus that the caller may navigate. -/
def callersTree (api : Api) (user : String) (ctx : Context) : Service (List MenuTree) :=
  if api.users.isRoot user then Menus.visibleTree ctx else Menus.userTree ctx user

/-- The endpoints for menus. -/
def menus (api : Api) (r : Request) (ids : List String) : Endpoint → Handler Response
  | .listMenus => do
    let page ← query r pageQueryShape
    let q ← query r MenuQuery.shape
    let found ← api.serve r fun ctx => Menus.query ctx q.filter (q.options page)
    return .json 200 (pageToJson Menu.toJson found)
  | .menuTree => do
    let q ← query r MenuQuery.shape
    let trees ← api.serve r fun ctx => Menus.tree ctx q.filter (q.options {})
    return .json 200 (forestJson trees)
  | .getMenu => do
    let id ← pathId ids
    return .json 200 (← api.serve r fun ctx => Menus.get ctx id .everything).toJson
  | .createMenu => do
    let input ← body r MenuInput.shape
    return .json 201 (← api.serve r fun ctx => Menus.create ctx input).toJson
  | .updateMenu => do
    let id ← pathId ids
    let input ← body r MenuInput.shape
    return .json 200 (← api.serve r fun ctx => Menus.update ctx id input).toJson
  | _ => do
    let id ← pathId ids
    api.serve r fun ctx => Menus.delete ctx id
    return .bare 204

/-- The endpoints for roles. -/
def roles (api : Api) (r : Request) (ids : List String) : Endpoint → Handler Response
  | .listRoles => do
    let page ← query r pageQueryShape
    let q ← query r RoleQuery.shape
    let found ← api.serve r fun ctx => Roles.query ctx q.filter (q.options page)
    return .json 200 (pageToJson Role.toJson found)
  | .selectRoles => do
    return .json 200 (.arr ((← api.serve r Roles.select).map Role.toJson))
  | .getRole => do
    let id ← pathId ids
    return .json 200 (← api.serve r fun ctx => Roles.get ctx id .everything).toJson
  | .createRole => do
    let input ← body r RoleInput.shape
    return .json 201 (← api.serve r fun ctx => Roles.create ctx input).toJson
  | .updateRole => do
    let id ← pathId ids
    let input ← body r RoleInput.shape
    return .json 200 (← api.serve r fun ctx => Roles.update ctx id input).toJson
  | _ => do
    let id ← pathId ids
    api.serve r fun ctx => Roles.delete ctx id
    return .bare 204

/-- Sets the status of a user. -/
def setStatus (api : Api) (r : Request) (ids : List String) (status : UserStatus) :
    Handler Response := do
  let id ← pathId ids
  api.serve r fun ctx => Users.updateStatus ctx id status
  return .bare 204

/-- The endpoints for users. -/
def userRecords (api : Api) (r : Request) (ids : List String) : Endpoint → Handler Response
  | .listUsers => do
    let page ← query r pageQueryShape
    let q ← query r UserQuery.shape
    let found ← api.serve r fun ctx => Users.query ctx q.filter (q.options page)
    return .json 200 (pageToJson User.toJson found)
  | .getUser => do
    let id ← pathId ids
    return .json 200 (← api.serve r fun ctx => Users.get ctx id .everything).toJson
  | .createUser => do
    let input ← body r UserInput.shape
    return .json 201 (← api.serve r fun ctx => Users.create api.users ctx input).toJson
  | .updateUser => do
    let id ← pathId ids
    let input ← body r UserInput.shape
    return .json 200 (← api.serve r fun ctx => Users.update api.users ctx id input).toJson
  | .enableUser => api.setStatus r ids .enabled
  | .disableUser => api.setStatus r ids .disabled
  | .changePassword => do
    let id ← pathId ids
    let input ← body r NewPassword.shape
    api.serve r fun ctx => Users.updatePassword api.users ctx id input.password
    return .bare 204
  | _ => do
    let id ← pathId ids
    api.serve r fun ctx => Users.delete ctx id
    return .bare 204

/-- The endpoints about the caller. -/
def ownRecords (api : Api) (r : Request) : Endpoint → Handler Response
  | .currentUser => do
    let user ← caller r
    return .json 200 (← api.serve r fun ctx => Users.current api.users ctx user).toJson
  | .currentMenuTree => do
    let user ← caller r
    return .json 200 (forestJson (← api.serve r (api.callersTree user)))
  | _ => do
    let input ← body r PasswordChange.shape
    let user ← caller r
    api.serve r fun ctx => Users.changeOwnPassword api.users ctx user input.old input.new
    return .bare 204

/-- The work of an endpoint. -/
def work (api : Api) (r : Request) (e : Endpoint) (ids : List String) : Handler Response :=
  match e with
  | .systemInfo =>
    return .json 200
      (SystemInfo.toJson
        { storageBackend := api.storageBackend
          durableStorage := api.durableStorage
          enforce := api.enforce })
  | .systemHealth => health
  | .listMenus | .createMenu | .menuTree | .getMenu | .updateMenu | .deleteMenu =>
    api.menus r ids e
  | .listRoles | .createRole | .selectRoles | .getRole | .updateRole | .deleteRole =>
    api.roles r ids e
  | .listUsers | .createUser | .getUser | .updateUser | .deleteUser | .enableUser | .disableUser
  | .changePassword => api.userRecords r ids e
  | .reloadPolicy => reload
  | .checkPolicy => do check (← body r Policy.Permission.shape)
  | .listRules => rules
  | .currentUser | .currentMenuTree | .changeOwnPassword => api.ownRecords r e

/-- An endpoint answers a request for the head of its answer without the body. -/
def forMethod (method : String) (r : Response) : Response :=
  if method = "HEAD" then .bare r.status else r

/-- The response of an endpoint to an admitted request; `none` when the endpoint broke off. -/
def respond (api : Api) (r : Request) (e : Endpoint) (ids : List String) :
    Program (Option Response) := do
  match ← (api.work r e ids).run with
  | .ok response => return some response
  | .error (.answer response) => return some response
  | .error .stuck => return none

/-- The response to a request at a known path: what the gate refuses is refused, whether or not the
path has the method; `none` when a decision came to a pattern that cannot be compiled, or the endpoint
broke off. -/
def guarded (api : Api) (r : Request) (admitted : Program (Option Response)) :
    Program (Option Response) := do
  match ← api.gate.judge api.ask r.method r.target.path r.headers with
  | .stuck => return none
  | .refused refusal => return some refusal.response
  | .admitted => admitted

/-- The response to a request; `none` when the work on it broke off. -/
def handle (api : Api) (r : Request) : Program (Option Response) :=
  match Endpoint.route r.target.path r.method with
  | .unknownPath => return some (.bare 404)
  | .wrongMethod => api.guarded r (return some (.bare 405))
  | .found e ids => Option.map (forMethod r.method) <$> api.guarded r (api.respond r e ids)

end Api

end AccessAdmin.Http
