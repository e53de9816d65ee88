import AccessAdmin.Proofs.Discretion.Services
import AccessAdmin.Proofs.Mediation
import AccessAdmin.Proofs.Origins.Mutations
import AccessAdmin.Wire.Lookup

/-!
# What fails inside is not told

A failure of the store has a text of its own, such as the message of a driver. The text is handed on
with the error, through services and projections, and is part of the error's wording. No response
holds it: every endpoint answers a failure with a text of its own. So two runs of a request that
differ in the texts of the failures alone, wherever these strike, give the same response.

* `Stop.ofService_eq`: an endpoint stops alike at errors that are alike.
* `Api.discreet_work`: every endpoint is discreet.
* `Api.undisclosed`: the response to a request does not depend on the texts.
-/

namespace AccessAdmin.Http

/-- An endpoint stops alike at errors that are alike: what is told of an error is not told by what
the error wraps up. -/
theorem Stop.ofService_eq {e e' : ServiceError} (h : e.Alike e') : ofService e = ofService e' := by
  cases h with
  | refl e => rfl
  | storage h => cases h <;> rfl
  | policy h => rfl

/-! ## Admission -/

namespace Gate

theorem storeless_counted (d : Decision) (v : Verdict) : (counted d v).Storeless :=
  ⟨fun _ h => h, fun _ => trivial⟩

variable {ask : Asking}

/-- The gate asks nothing of the store if the evaluation does not. -/
theorem storeless_judge (hask : ∀ user path method, (ask user path method).Storeless) (g : Gate)
    (method path : String) (headers : Headers) :
    (g.judge ask method path headers).Storeless := by
  have hconsult (user : String) : (consult ask user path method).Storeless := by
    refine (hask user path method).bind fun v => ?_
    rcases v with _ | _ | _ | _
    · trivial
    · trivial
    · exact storeless_counted _ _
    · exact storeless_counted _ _
  unfold judge
  split
  · trivial
  · split
    · exact storeless_counted _ _
    · split
      · exact storeless_counted _ _
      · split
        · exact storeless_counted _ _
        · exact hconsult _

end Gate

theorem Asking.storeless_engine (user path method : String) :
    (Asking.engine user path method).Storeless :=
  ⟨fun _ h => h, fun _ => trivial⟩

/-! ## Reading requests -/

namespace Handler

variable {α : Type}

theorem discreet_answer (r : Response) : Discreet Eq (answer r : Handler α) := .done (.error rfl)

theorem discreet_orStatus (x : Except Nat α) : Discreet Eq (orStatus x) := by
  cases x with
  | ok a => exact discreet_pure a
  | error status => exact discreet_answer _

theorem discreet_pathId (ids : List String) : Discreet Eq (pathId ids) := by
  unfold pathId
  split
  · exact discreet_pure _
  · exact discreet_answer _

theorem discreet_query {r : Request} (shape : Wire.Shape α) : Discreet Eq (query r shape) := by
  unfold query
  split
  · exact discreet_pure _
  · exact discreet_answer _

theorem discreet_body {r : Request} (shape : Wire.Shape α) : Discreet Eq (body r shape) :=
  discreet_orStatus _

theorem discreet_caller (r : Request) : Discreet Eq (caller r) := by
  unfold caller
  split
  · exact discreet_pure _
  · exact discreet_answer _

end Handler

/-! ## Endpoints -/

namespace Api

open Handler

variable {α : Type} {api : Api} {r : Request} {ids : List String}

/-- The work of a service is answered by its value or by what is told of its error. -/
theorem discreet_serve {work : Context → Service α}
    (h : ∀ ctx, (work ctx).Composed fun _ _ => True) : Discreet Eq (api.serve r work) := by
  have hnow : (Program.perform .elapsed).Storeless := Program.storeless_perform fun _ h => h
  refine hnow.alike.bind fun now _ hnow => ?_
  subst hnow
  refine Program.Alike.bind (h _).discreet fun x x' hx => ?_
  cases hx with
  | ok a => exact .done (.ok a)
  | error he => exact .done (.error (by rw [Stop.ofService_eq he]))

/-- The work of a service is answered by a response to its value. -/
theorem discreet_reply {work : Context → Service α}
    (h : ∀ ctx, (work ctx).Composed fun _ _ => True) (f : α → Response) :
    Discreet Eq (do return f (← api.serve r work)) :=
  (discreet_serve h).bind fun _ => discreet_pure _

/-- A pass over everything that fails is answered with a text of the endpoint. -/
theorem discreet_reload : Discreet Eq reload := by
  refine Program.Alike.bind (Program.alike_perform .openSession) fun opened opened' hopened => ?_
  cases hopened with
  | error _ => exact .done (.error rfl)
  | ok id =>
    refine Program.Alike.bind Projection.composed_all.discreet fun x x' hx => ?_
    refine Program.Alike.bind (Program.alike_perform (.closeSession id)) fun _ _ _ => ?_
    cases hx with
    | ok summary => exact .done (.ok _)
    | error he =>
      cases he with
      | store _ => exact .done (.error rfl)
      | engine _ => exact .done (.error rfl)

theorem discreet_check (q : Question) : Discreet Eq (check q) := by
  refine (Program.storeless_policy _).alike.bind fun x _ hx => ?_
  subst hx
  cases x with
  | none => exact .done (.error rfl)
  | some allowed => exact .done (.ok _)

theorem discreet_rules : Discreet Eq rules :=
  (discreet_lift (Program.storeless_policy .snapshot)).bind fun _ => discreet_pure _

theorem discreet_health : Discreet Eq health := by
  refine Program.Alike.bind (Program.alike_perform .checkHealth) fun x x' hx => ?_
  cases hx with
  | ok _ => exact .done (.ok _)
  | error _ => exact .done (.error rfl)

theorem discreet_menus (e : Endpoint) : Discreet Eq (api.menus r ids e) := by
  unfold menus
  split
  · exact (discreet_query _).bind fun page => (discreet_query _).bind fun q =>
      discreet_reply (fun _ => Menus.composed_query _ _) _
  · exact (discreet_query _).bind fun q => discreet_reply (fun _ => Menus.composed_tree _ _) _
  · exact (discreet_pathId _).bind fun id => discreet_reply (fun _ => Menus.composed_get _ _) _
  · exact (discreet_body _).bind fun input =>
      discreet_reply (fun _ => Menus.composed_create fun _ _ => trivial) _
  · exact (discreet_pathId _).bind fun id => (discreet_body _).bind fun input =>
      discreet_reply (fun _ => Menus.composed_update _ fun _ _ => trivial) _
  · exact (discreet_pathId _).bind fun id =>
      discreet_reply (fun _ => Menus.composed_delete id) fun _ => .bare 204

theorem discreet_roles (e : Endpoint) : Discreet Eq (api.roles r ids e) := by
  unfold roles
  split
  · exact (discreet_query _).bind fun page => (discreet_query _).bind fun q =>
      discreet_reply (fun _ => Roles.composed_query _ _) _
  · exact discreet_reply (fun _ => (Roles.composed_query _ _).bind fun _ => .pure _) _
  · exact (discreet_pathId _).bind fun id => discreet_reply (fun _ => Roles.composed_get _ _) _
  · exact (discreet_body _).bind fun input => discreet_reply (fun _ => Roles.composed_create _) _
  · exact (discreet_pathId _).bind fun id => (discreet_body _).bind fun input =>
      discreet_reply (fun _ => Roles.composed_update _ _) _
  · exact (discreet_pathId _).bind fun id =>
      discreet_reply (fun _ => Roles.composed_delete id) fun _ => .bare 204

theorem discreet_setStatus (status : UserStatus) :
    Discreet Eq (api.setStatus r ids status) :=
  (discreet_pathId _).bind fun id =>
    discreet_reply (fun _ => Users.composed_updateStatus id status) fun _ => .bare 204

theorem discreet_userRecords (e : Endpoint) : Discreet Eq (api.userRecords r ids e) := by
  unfold userRecords
  split
  · exact (discreet_query _).bind fun page => (discreet_query _).bind fun q =>
      discreet_reply (fun _ => Users.composed_query _ _) _
  · exact (discreet_pathId _).bind fun id => discreet_reply (fun _ => Users.composed_get _ _) _
  · exact (discreet_body _).bind fun input => discreet_reply (fun _ => Users.composed_create _) _
  · exact (discreet_pathId _).bind fun id => (discreet_body _).bind fun input =>
      discreet_reply (fun _ => Users.composed_update _ _) _
  · exact discreet_setStatus .enabled
  · exact discreet_setStatus .disabled
  · exact (discreet_pathId _).bind fun id => (discreet_body _).bind fun input =>
      discreet_reply (fun _ => Users.composed_updatePassword _ _) fun _ => .bare 204
  · exact (discreet_pathId _).bind fun id =>
      discreet_reply (fun _ => Users.composed_delete id) fun _ => .bare 204

theorem composed_callersTree (user : String) (ctx : Context) :
    (api.callersTree user ctx).Composed fun _ _ => True :=
  .ite (Menus.composed_tree _ _) (Menus.composed_userTree _)

theorem discreet_ownRecords (e : Endpoint) : Discreet Eq (api.ownRecords r e) := by
  unfold ownRecords
  split
  · exact (discreet_caller r).bind fun user => discreet_reply (fun _ => Users.composed_current _) _
  · exact (discreet_caller r).bind fun user => discreet_reply (composed_callersTree user) _
  · exact (discreet_body _).bind fun input => (discreet_caller r).bind fun user =>
      discreet_reply (fun _ => Users.composed_changeOwnPassword _ _ _) fun _ => .bare 204

/-- Every endpoint is discreet. -/
theorem discreet_work (e : Endpoint) : Discreet Eq (api.work r e ids) := by
  unfold work
  cases e with
  | systemInfo => exact discreet_pure _
  | systemHealth => exact discreet_health
  | listMenus | createMenu | menuTree | getMenu | updateMenu | deleteMenu =>
    exact discreet_menus _
  | listRoles | createRole | selectRoles | getRole | updateRole | deleteRole =>
    exact discreet_roles _
  | listUsers | createUser | getUser | updateUser | deleteUser | enableUser | disableUser
  | changePassword => exact discreet_userRecords _
  | reloadPolicy => exact discreet_reload
  | checkPolicy => exact (discreet_body _).bind discreet_check
  | listRules => exact discreet_rules
  | currentUser | currentMenuTree | changeOwnPassword => exact discreet_ownRecords _

/-! ## Responses -/

theorem alike_respond (e : Endpoint) : (api.respond r e ids).Alike Eq (api.respond r e ids) := by
  refine Program.Alike.bind (discreet_work e) fun x x' hx => ?_
  obtain rfl := hx.eq
  rcases x with (_ | _) | _ <;> exact .done rfl

variable (hask : ∀ user path method, (api.ask user path method).Storeless)
include hask

theorem alike_guarded {admitted : Program (Option Response)} (h : admitted.Alike Eq admitted) :
    (api.guarded r admitted).Alike Eq (api.guarded r admitted) := by
  refine (Gate.storeless_judge hask _ _ _ _).alike.bind fun verdict _ hverdict => ?_
  subst hverdict
  cases verdict with
  | stuck => exact .done rfl
  | refused refusal => exact .done rfl
  | admitted => exact h

theorem alike_handle (r : Request) : (api.handle r).Alike Eq (api.handle r) := by
  unfold handle
  split
  · exact .done rfl
  · exact alike_guarded hask (.done rfl)
  · exact (alike_guarded hask (alike_respond _)).map fun _ _ h => congrArg _ h

/-- In two runs of a request on worlds whose plans of faults differ in the texts of failures alone,
the responses are the same, whatever the request, the state, and the calls that fail or hang. The
worlds afterwards again differ in such texts alone, so the same holds of all requests that follow.
The evaluation may be any that asks nothing of the store, as the engine's does not. -/
theorem undisclosed {σ : Type} [Backend σ] {env : Surroundings} {w w' : World σ} (r : Request)
    (hw : w.Alike w') :
    (World.run env (api.handle r) w).1 = (World.run env (api.handle r) w').1 ∧
      (World.run env (api.handle r) w).2.Alike (World.run env (api.handle r) w').2 :=
  (hw.run env (alike_handle hask r)).eq

end Api

end AccessAdmin.Http

/-! ## A sample -/

namespace AccessAdmin

open Http

namespace Sample

/-- A request of the root user to delete the menu that the sample's role grants. -/
def removal : Request where
  method := "DELETE"
  target := { path := "/v1/menus/mx" }
  headers := ⟨[("X-Portcullis-User", [114, 111, 111, 116])]⟩

/-- The sample when the grants of a role cannot be read, for some reason. -/
def unreadable (reason : String) : World MemoryStore :=
  { reception with faults := [⟨"list_role_menus", .fail (.unexpected reason), 0, 1⟩] }

end Sample

/-- The menu is deleted, the role that granted it cannot be projected after the commit, and the
response does not tell why. -/
theorem sample_undisclosed :
    (Sample.unreadable "timed out").Alike (Sample.unreadable "no route to db-7") ∧
    (World.run Sample.env (Sample.api.handle Sample.removal) (Sample.unreadable "timed out")).1 =
      (World.run Sample.env (Sample.api.handle Sample.removal)
        (Sample.unreadable "no route to db-7")).1 ∧
    (World.run Sample.env (Sample.api.handle Sample.removal) (Sample.unreadable "timed out")).1.map
      (Option.map fun r => (r.status, r.body.bind (·.text? "code"))) =
        some (some (500, some "policy_stale")) := by
  have hplan : (Sample.unreadable "timed out").Alike (Sample.unreadable "no route to db-7") :=
    ⟨_, .cons ⟨_, .fail (.unexpected _ "no route to db-7"), rfl⟩ .nil, rfl⟩
  exact ⟨hplan, (Api.undisclosed Asking.storeless_engine Sample.removal hplan).1, by decide +kernel⟩

end AccessAdmin
