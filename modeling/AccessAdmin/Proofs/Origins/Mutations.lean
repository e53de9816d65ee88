import AccessAdmin.Proofs.Origins.Composed

/-!
# The services as compositions

The only resources that services write are those of the menus that are described to them. Roles and
users name no paths, so what is done to them is composed for any source, and so is every lookup.

* `Mutation.described`: the resources that a mutation describes.
* `Mutation.composed`: a mutation is composed for the resources that it describes.
* `Inquiry`: the calls of the services that change nothing.
-/

namespace AccessAdmin

open Service

variable {src : String → String → Prop} {s : Session} {ctx : Context} {users : UserPolicy}

/-! ## Menus -/

namespace Menus

theorem composed_validate (f : MenuForm) : Composed src (validate f) := by
  unfold validate
  split
  · exact .pure ()
  · exact .refuse _

theorem composed_pathUnder (parentId : String) : Composed src (pathUnder s parentId) := by
  refine .ite (.pure _) ((Composed.ask _).bind fun found => ?_)
  cases found with
  | some parent => exact .pure _
  | none => exact .refuse _

/-- The rows of the described resources. -/
theorem drawn_resourcesFor {f : MenuForm} {id : String}
    (h : ∀ r ∈ f.resources, src r.path r.method) :
    ∀ x ∈ f.resourcesFor id, src x.path x.method := by
  intro x hx
  obtain ⟨r, hr, rfl⟩ := List.mem_map.mp hx
  exact h r hr

theorem composed_insert (actor : String) {input : MenuInput}
    (h : ∀ r ∈ input.resources, src r.path r.method) : Composed src (insert s actor input) := by
  refine (composed_pathUnder _).bind fun path => (Composed.freshId _).bind fun id => ?_
  refine Composed.readClock.bind fun now => (Composed.change (by trivial)).bind fun _ => ?_
  refine (Composed.changeEach fun _ _ => by trivial).bind fun _ => ?_
  refine (Composed.changeEach (drawn_resourcesFor h)).bind fun _ => ?_
  refine (Composed.ask _).bind fun stored => ?_
  cases stored <;> exact .pure _

theorem composed_rebaseSubtree (old new : AncestorPath) :
    Composed src (rebaseSubtree s old new) := by
  refine (Composed.ask _).bind fun below => ?_
  rw [rebases_eq]
  exact (Composed.changeEach fun _ _ => by trivial).bind fun _ => .pure _

theorem composed_move (id : String) (old : Menu) (parentId : String) :
    Composed src (move s id old parentId) := by
  refine .ite (.pure _) ((composed_pathUnder _).bind fun path => ?_)
  refine .ite (.refuse _) ((composed_rebaseSubtree _ _).bind fun _ => ?_)
  exact (Composed.count _).bind fun _ => .pure _

/-- The resources of a plan are described ones: a deletion names its resource by the code only. -/
theorem composed_syncChildren (id : String) {f : MenuForm}
    (h : ∀ r ∈ f.resources, src r.path r.method) : Composed src (syncChildren s id f) := by
  refine (Composed.ask _).bind fun _ => (Composed.changeEach fun _ _ => by trivial).bind fun _ => ?_
  refine (Composed.changeEach fun _ _ => by trivial).bind fun _ => ?_
  refine (Composed.changeEach fun _ _ => by trivial).bind fun _ => ?_
  refine (Composed.ask _).bind fun old => ?_
  refine (Composed.changeEach fun _ _ => by trivial).bind fun _ => ?_
  have hupdate (x : MenuResource)
      (hx : x ∈ (Changeset.between MenuResource.code old (f.resourcesFor id)).update) :
      src x.path x.method := drawn_resourcesFor h x (Changeset.between_sub.1 hx)
  have hcreate (x : MenuResource)
      (hx : x ∈ (Changeset.between MenuResource.code old (f.resourcesFor id)).create) :
      src x.path x.method := drawn_resourcesFor h x (Changeset.between_sub.2 hx)
  exact (Composed.changeEach hupdate).bind fun _ => .changeEach hcreate

theorem composed_create {input : MenuInput} (h : ∀ r ∈ input.resources, src r.path r.method) :
    Composed src (create ctx input) :=
  (composed_validate _).bind fun _ => .session fun _ => (composed_insert _ h).transaction

theorem composed_applyUpdate (id : String) {input : MenuInput}
    (h : ∀ r ∈ input.resources, src r.path r.method) : Composed src (applyUpdate s id input) := by
  refine (Composed.ask _).bind fun found => ?_
  cases found with
  | none => exact .refuse _
  | some old =>
    refine Composed.readClock.bind fun now => (composed_move _ _ _).bind fun place => ?_
    refine (composed_syncChildren id h).bind fun _ => ?_
    exact (Composed.change (by trivial)).bind fun _ => .pure _

theorem composed_update (id : String) {input : MenuInput}
    (h : ∀ r ∈ input.resources, src r.path r.method) : Composed src (update ctx id input) := by
  refine .ite (.refuse _) ((composed_validate _).bind fun _ => ?_)
  refine .commit (fun s => composed_applyUpdate id h) fun s menu => ?_
  have hproject : Composed src (Projecting.afterCommit
      (discard (Projection.menuGrantees s menu.id))) :=
    .afterCommit ((Projection.composed_menuGrantees menu.id).map _)
  exact hproject.bind fun _ => .pure _

theorem composed_remove (id : String) : Composed src (remove s id) := by
  refine (Composed.ask _).bind fun found => ?_
  cases found with
  | none => exact .refuse _
  | some _ =>
    refine (Composed.ask _).bind fun children => .ite (.refuse _) ?_
    refine (Composed.ask _).bind fun granting => (Composed.change (by trivial)).bind fun _ => ?_
    refine (Composed.change (by trivial)).bind fun _ => ?_
    exact (Composed.change (by trivial)).bind fun _ => .pure _

theorem composed_delete (id : String) : Composed src (delete ctx id) := by
  unfold delete
  exact .commit (fun s => composed_remove id) fun s granting =>
    .afterCommit (Projection.composed_roles granting)

end Menus

/-- The resources that the menus of a forest are described with. -/
def MenuSeed.described : List MenuSeed → List ResourceInput
  | [] => []
  | .node form children :: rest => form.resources ++ described children ++ described rest

/-- By recursion on the forest, as it is planted. -/
theorem Menus.composed_plant (actor : String) : ∀ (forest : List MenuSeed) (parentId : String),
    (∀ r ∈ MenuSeed.described forest, src r.path r.method) →
      Composed src (plant s actor parentId forest)
  | [], _, _ => by
    rw [plant]
    exact .pure 0
  | .node form children :: rest, parentId, h => by
    simp only [MenuSeed.described, List.mem_append] at h
    have hown (r : ResourceInput) (hr : r ∈ (form.under parentId).resources) :
        src r.path r.method := h r (.inl (.inl hr))
    have hbelow (menu : Menu) : Composed src (plant s actor menu.id children) :=
      composed_plant actor children menu.id fun r hr => h r (.inl (.inr hr))
    have hbeside : Composed src (plant s actor parentId rest) :=
      composed_plant actor rest parentId fun r hr => h r (.inr hr)
    rw [plant]
    refine (composed_validate form).bind fun _ => (composed_insert actor hown).bind fun menu => ?_
    exact (hbelow menu).bind fun _ => hbeside.bind fun _ => .pure _

theorem Menus.composed_seed {forest : List MenuSeed}
    (h : ∀ r ∈ MenuSeed.described forest, src r.path r.method) :
    Composed src (seed ctx forest) := by
  unfold seed
  refine .session fun s => Composed.transaction ((Composed.ask _).bind fun existing => ?_)
  exact .ite (.pure _) (composed_plant _ forest "" h)

/-! ## Roles -/

namespace Roles

theorem composed_validate (input : RoleInput) : Composed src (validate input) := by
  unfold validate
  split
  · exact .pure ()
  · exact .refuse _

theorem composed_ensureNameFree (name : String) (own : Option String) :
    Composed src (ensureNameFree s name own) :=
  (Composed.ask _).bind fun _ => .ite (.refuse _) (.pure _)

theorem composed_withIds (ids : List String) : Composed src (withIds s ids) :=
  .ite (.pure _) ((Composed.ask _).bind fun _ => .pure _)

end Roles

theorem Menus.composed_withIds (ids : List String) : Composed src (withIds s ids) :=
  .ite (.pure _) ((Composed.ask _).bind fun _ => .pure _)

namespace Roles

theorem composed_ensureMenusExist (input : RoleInput) :
    Composed src (ensureMenusExist s input) := by
  refine (Menus.composed_withIds _).bind fun found => ?_
  split
  · exact .refuse _
  · exact .pure _

theorem composed_insert (actor : String) (input : RoleInput) :
    Composed src (insert s actor input) := by
  refine (composed_ensureNameFree _ _).bind fun _ => (composed_ensureMenusExist _).bind fun _ => ?_
  refine (Composed.freshId _).bind fun id => Composed.readClock.bind fun now => ?_
  refine (Composed.change (by trivial)).bind fun _ => ?_
  exact (Composed.changeEach fun _ _ => by trivial).bind fun _ => .pure _

theorem composed_syncGrants (id : String) (input : RoleInput) :
    Composed src (syncGrants s id input) := by
  refine (Composed.ask _).bind fun old => ?_
  refine (Composed.changeEach fun _ _ => by trivial).bind fun _ => ?_
  refine (Composed.changeEach fun _ _ => by trivial).bind fun _ => ?_
  exact .changeEach fun _ _ => by trivial

theorem composed_applyUpdate (id : String) (input : RoleInput) :
    Composed src (applyUpdate s id input) := by
  refine (Composed.ask _).bind fun found => ?_
  cases found with
  | none => exact .refuse _
  | some old =>
    refine (composed_ensureNameFree _ _).bind fun _ => ?_
    refine (composed_ensureMenusExist _).bind fun _ => ?_
    refine (composed_syncGrants _ _).bind fun _ => Composed.readClock.bind fun now => ?_
    exact (Composed.change (by trivial)).bind fun _ => .pure _

theorem composed_remove (id : String) : Composed src (remove s id) := by
  refine (Composed.ask _).bind fun found => ?_
  cases found with
  | none => exact .refuse _
  | some _ =>
    refine (Composed.change (by trivial)).bind fun _ => ?_
    refine (Composed.change (by trivial)).bind fun _ => ?_
    exact .change (by trivial)

theorem composed_project (id : String) : Composed src (project s id) :=
  .afterCommit ((Projecting.Composed.role s id).map _)

theorem composed_create (input : RoleInput) : Composed src (create ctx input) := by
  refine (composed_validate _).bind fun _ => .commit (fun s => composed_insert _ input) ?_
  exact fun s role => (composed_project role.id).bind fun _ => .pure _

theorem composed_update (id : String) (input : RoleInput) : Composed src (update ctx id input) := by
  refine (composed_validate _).bind fun _ => .commit (fun s => composed_applyUpdate id input) ?_
  exact fun s role => (composed_project role.id).bind fun _ => .pure _

theorem composed_delete (id : String) : Composed src (delete ctx id) := by
  unfold delete
  exact .commit (fun s => composed_remove id) fun s _ =>
    .afterCommit (Projection.composed_removeRole id)

theorem composed_attachGrants (roles : List Role) : Composed src (attachGrants s roles) :=
  .ite (.pure _) ((Composed.ask _).bind fun _ => .pure _)

end Roles

/-! ## Users -/

namespace Users

theorem composed_validate (input : UserInput) : Composed src (validate users input) := by
  unfold validate
  split
  · exact .pure ()
  · exact .refuse _

theorem composed_hashed (password : String) : Composed src (users.hashed password) :=
  Composed.freshSalt.bind fun _ => .pure _

theorem composed_ensureUsernameFree (username : String) (own : Option String) :
    Composed src (ensureUsernameFree s username own) :=
  (Composed.ask _).bind fun _ => .ite (.refuse _) (.pure _)

theorem composed_ensureRolesExist (roleIds : List String) :
    Composed src (ensureRolesExist s roleIds) := by
  refine (Roles.composed_withIds _).bind fun found => ?_
  split
  · exact .refuse _
  · exact .pure _

theorem composed_insert (actor hash : String) (input : UserInput) :
    Composed src (insert s actor hash input) := by
  refine (composed_ensureUsernameFree _ _).bind fun _ => ?_
  refine (composed_ensureRolesExist _).bind fun _ => ?_
  refine (Composed.freshId _).bind fun id => Composed.readClock.bind fun now => ?_
  refine (Composed.change (by trivial)).bind fun _ => ?_
  exact (Composed.changeEach fun _ _ => by trivial).bind fun _ => .pure _

theorem composed_syncRoles (id : String) (input : UserInput) :
    Composed src (syncRoles s id input) := by
  refine (Composed.ask _).bind fun old => ?_
  refine (Composed.changeEach fun _ _ => by trivial).bind fun _ => ?_
  exact .changeEach fun _ _ => by trivial

theorem composed_applyUpdate (id : String) (hash : Option String) (input : UserInput) :
    Composed src (applyUpdate s id hash input) := by
  refine (Composed.ask _).bind fun found => ?_
  cases found with
  | none => exact .refuse _
  | some old =>
    refine (composed_ensureUsernameFree _ _).bind fun _ => ?_
    refine (composed_ensureRolesExist _).bind fun _ => ?_
    refine (composed_syncRoles _ _).bind fun _ => Composed.readClock.bind fun now => ?_
    refine (Composed.change (by trivial)).bind fun _ => ?_
    -- A new password is one more change, after that of the status.
    cases hash with
    | none =>
      dsimp only
      split
      · exact (Composed.change (by trivial)).bind fun _ => .pure _
      · exact .pure _
    | some hash =>
      have hpassword (row : User) :
          Composed src (do s.change (.updateUserPassword id hash); return row) :=
        (Composed.change (by trivial)).bind fun _ => .pure _
      dsimp only
      split
      · exact (Composed.change (by trivial)).bind fun _ => hpassword _
      · exact hpassword _

theorem composed_remove (id : String) : Composed src (remove s id) := by
  refine (Composed.ask _).bind fun found => ?_
  cases found with
  | none => exact .refuse _
  | some _ => exact (Composed.change (by trivial)).bind fun _ => .change (by trivial)

theorem composed_setStatus (id : String) (status : UserStatus) :
    Composed src (setStatus s id status) := by
  refine (Composed.ask _).bind fun found => ?_
  cases found with
  | none => exact .refuse _
  | some _ => exact .change (by trivial)

theorem composed_syncPolicy (id : String) (status : UserStatus) :
    Composed src (syncPolicy s id status) := by
  cases status with
  | enabled => exact .afterCommit ((Projecting.Composed.user s id).map _)
  | disabled => exact .afterCommit (Projection.composed_removeUser id)

theorem composed_create (input : UserInput) : Composed src (create users ctx input) := by
  refine (composed_validate _).bind fun _ => .ite (.refuse _) ?_
  refine (composed_hashed _).bind fun hash => .commit (fun s => composed_insert _ hash input) ?_
  exact fun s user => (composed_syncPolicy user.id user.status).bind fun _ => .pure _

theorem composed_update (id : String) (input : UserInput) :
    Composed src (update users ctx id input) := by
  have hcommit (hash : Option String) : Composed src (Service.session fun s => do
      let user ← ctx.transaction s (applyUpdate s id hash input)
      syncPolicy s user.id user.status
      return user) :=
    .commit (fun s => composed_applyUpdate id hash input) fun s user =>
      (composed_syncPolicy user.id user.status).bind fun _ => .pure _
  refine (composed_validate _).bind fun _ => ?_
  dsimp only
  split
  · exact hcommit none
  · exact ((composed_hashed _).map some).bind hcommit

theorem composed_delete (id : String) : Composed src (delete ctx id) := by
  unfold delete
  exact .commit (fun s => composed_remove id) fun s _ =>
    .afterCommit (Projection.composed_removeUser id)

theorem composed_updateStatus (id : String) (status : UserStatus) :
    Composed src (updateStatus ctx id status) := by
  unfold updateStatus
  exact .commit (fun s => composed_setStatus id status) fun s _ => composed_syncPolicy id status

theorem composed_attachRoles (found : List User) : Composed src (attachRoles s found) :=
  .ite (.pure _) ((Composed.ask _).bind fun _ => .pure _)

theorem composed_updatePassword (id password : String) :
    Composed src (updatePassword users ctx id password) := by
  refine .ite (.refuse _) ((composed_hashed _).bind fun hash => ?_)
  exact .session fun s => (Composed.change (by trivial)).transaction

theorem composed_verifyPassword (username password : String) :
    Composed src (verifyPassword users ctx username password) := by
  unfold verifyPassword
  exact .session fun s => (Composed.ask _).bounded.bind fun _ => .pure _

end Users

theorem Menus.composed_activeUser (id : String) : Composed src (activeUser ctx s id) := by
  refine (Composed.ask _).bounded.bind fun found => ?_
  cases found with
  | none => exact .refuse _
  | some user => exact .ite (.pure _) (.refuse _)

theorem Users.composed_changeOwnPassword (userId old new : String) :
    Composed src (changeOwnPassword users ctx userId old new) := by
  refine .ite (.refuse _) (.ite (.refuse _) ?_)
  refine (Composed.session fun s => Menus.composed_activeUser userId).bind fun user => ?_
  refine (composed_verifyPassword _ _).bind fun right => ?_
  exact .ite (composed_updatePassword userId new) (.refuse _)

/-! ## Mutations -/

/-- The resources that a mutation describes. -/
def Mutation.described : Mutation → List ResourceInput
  | createMenu input | updateMenu _ input => input.resources
  | seedMenus forest => MenuSeed.described forest
  | _ => []

/-- A mutation is composed for any source of the resources that it describes. -/
theorem Mutation.composed (m : Mutation) (h : ∀ r ∈ m.described, src r.path r.method) :
    Composed src (m.program users ctx) := by
  cases m with
  | createMenu input => exact Menus.composed_create h
  | updateMenu id input => exact Menus.composed_update id h
  | deleteMenu id => exact Menus.composed_delete id
  | seedMenus forest => exact Menus.composed_seed h
  | createRole input => exact Roles.composed_create input
  | updateRole id input => exact Roles.composed_update id input
  | deleteRole id => exact Roles.composed_delete id
  | createUser input => exact Users.composed_create input
  | updateUser id input => exact Users.composed_update id input
  | deleteUser id => exact Users.composed_delete id
  | updateStatus id status => exact Users.composed_updateStatus id status
  | updatePassword id password => exact Users.composed_updatePassword id password
  | changeOwnPassword userId old new => exact Users.composed_changeOwnPassword userId old new

/-! ## Inquiries -/

/-- The calls of the services that change nothing. -/
inductive Inquiry where
  | menu (id : String) (options : ListingOptions)
  | menuList (filter : MenuFilter) (options : ListingOptions)
  | menuTree (filter : MenuFilter) (options : ListingOptions)
  | visibleTree
  | userTree (userId : String)
  | role (id : String) (options : ListingOptions)
  | roleList (filter : RoleFilter) (options : ListingOptions)
  | roleChoices
  | user (id : String) (options : ListingOptions)
  | userList (filter : UserFilter) (options : ListingOptions)
  | profile (userId : String)
  | password (username password : String)

/-- The type of the answer to an inquiry. -/
abbrev Inquiry.Result : Inquiry → Type
  | menu _ _ => Menu
  | menuList _ _ => Listing Menu
  | menuTree _ _ | visibleTree | userTree _ => List MenuTree
  | role _ _ => Role
  | roleList _ _ => Listing Role
  | roleChoices => List Role
  | user _ _ => User
  | userList _ _ => Listing User
  | profile _ => Profile
  | password _ _ => Bool

/-- What an inquiry does. -/
def Inquiry.program (policy : UserPolicy) (ctx : Context) : (q : Inquiry) → Service q.Result
  | menu id options => Menus.get ctx id options
  | menuList filter options => Menus.query ctx filter options
  | menuTree filter options => Menus.tree ctx filter options
  | visibleTree => Menus.visibleTree ctx
  | userTree userId => Menus.userTree ctx userId
  | role id options => Roles.get ctx id options
  | roleList filter options => Roles.query ctx filter options
  | roleChoices => Roles.select ctx
  | user id options => Users.get ctx id options
  | userList filter options => Users.query ctx filter options
  | profile userId => Users.current policy ctx userId
  | password username given => Users.verifyPassword policy ctx username given

namespace Menus

theorem composed_hydrate (menus : List Menu) (options : ListingOptions) :
    Composed src (hydrate s menus options) := by
  have hresources (rows : List Menu) :
      Composed src (if options.resources then attachResources s rows else pure rows) :=
    .ite ((Composed.ask _).bind fun _ => .pure _) (.pure _)
  refine .ite (.pure _) ?_
  dsimp only
  split
  · exact .bind ((Composed.ask _).bind fun _ => .pure _) hresources
  · exact hresources menus

theorem composed_get (id : String) (options : ListingOptions) :
    Composed src (get ctx id options) := by
  unfold get
  refine .session fun s => (Composed.ask _).bounded.bind fun found => ?_
  cases found with
  | none => exact .refuse _
  | some menu => exact (composed_hydrate _ _).bounded.bind fun _ => .pure _

theorem composed_query (filter : MenuFilter) (options : ListingOptions) :
    Composed src (query ctx filter options) := by
  unfold query
  exact .session fun s => (Composed.ask _).bounded.bind fun _ =>
    (composed_hydrate _ _).bounded.bind fun _ => .pure _

theorem composed_tree (filter : MenuFilter) (options : ListingOptions) :
    Composed src (tree ctx filter options) :=
  (composed_query _ _).bind fun _ => .pure _

theorem composed_grantedMenus (userId : String) : Composed src (grantedMenus ctx s userId) := by
  refine (composed_activeUser userId).bind fun user => (Composed.ask _).bind fun assigned => ?_
  refine .ite (.refuse _) ((Composed.ask _).bind fun grants => ?_)
  refine (composed_withIds _).bind fun found => .ite (.refuse _) ?_
  exact (composed_withIds _).bind fun _ => (composed_hydrate _ _).bind fun _ => .pure _

theorem composed_userTree (userId : String) : Composed src (userTree ctx userId) := by
  unfold userTree
  exact .session fun s => (composed_grantedMenus userId).bounded.bind fun _ => .pure _

end Menus

namespace Roles

theorem composed_get (id : String) (options : ListingOptions) :
    Composed src (get ctx id options) := by
  unfold get
  refine .session fun s => (Composed.ask _).bounded.bind fun found => ?_
  cases found with
  | none => exact .refuse _
  | some role =>
    exact .ite ((composed_attachGrants _).bounded.bind fun _ => .pure _) (.pure _)

theorem composed_query (filter : RoleFilter) (options : ListingOptions) :
    Composed src (query ctx filter options) := by
  unfold query
  exact .session fun s => (Composed.ask _).bounded.bind fun _ =>
    .ite ((composed_attachGrants _).bounded.bind fun _ => .pure _) (.pure _)

end Roles

namespace Users

theorem composed_get (id : String) (options : ListingOptions) :
    Composed src (get ctx id options) := by
  unfold get
  refine .session fun s => (Composed.ask _).bounded.bind fun found => ?_
  cases found with
  | none => exact .refuse _
  | some user =>
    exact .ite ((composed_attachRoles _).bounded.bind fun _ => .pure _) (.pure _)

theorem composed_query (filter : UserFilter) (options : ListingOptions) :
    Composed src (query ctx filter options) := by
  unfold query
  exact .session fun s => (Composed.ask _).bounded.bind fun _ =>
    .ite ((composed_attachRoles _).bounded.bind fun _ => .pure _) (.pure _)

theorem composed_current (userId : String) : Composed src (current users ctx userId) := by
  refine .ite (.pure _) (.session fun s => ?_)
  refine (Menus.composed_activeUser userId).bind fun user => ?_
  refine (Composed.ask _).bounded.bind fun _ => ?_
  exact (Roles.composed_withIds _).bounded.bind fun _ => .pure _

end Users

/-- An inquiry writes nothing, so it is composed for any source. -/
theorem Inquiry.composed (q : Inquiry) : Composed src (q.program users ctx) := by
  cases q with
  | menu id options => exact Menus.composed_get id options
  | menuList filter options => exact Menus.composed_query filter options
  | menuTree filter options => exact Menus.composed_tree filter options
  | visibleTree => exact Menus.composed_tree _ _
  | userTree userId => exact Menus.composed_userTree userId
  | role id options => exact Roles.composed_get id options
  | roleList filter options => exact Roles.composed_query filter options
  | roleChoices => exact (Roles.composed_query _ _).bind fun _ => .pure _
  | user id options => exact Users.composed_get id options
  | userList filter options => exact Users.composed_query filter options
  | profile userId => exact Users.composed_current userId
  | password username given => exact Users.composed_verifyPassword username given

end AccessAdmin
