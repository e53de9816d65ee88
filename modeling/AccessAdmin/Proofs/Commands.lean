import AccessAdmin.Proofs.Running.Work

/-!
# Commands and what they commit

A command is a mutation with everything it depends on: who acts and by when, what the world gives
it, and which calls on the store fail or hang. Every command refuses or commits, and its answer
tells which.

* `Mutation`: the calls of the services that change something.
* `Command.run`: a command in a world.
* `Mutation.contract`: the contract of every mutation.
* `Reached`: the worlds that sequences of commands lead to.
-/

namespace AccessAdmin

/-- The calls of the services that change something. -/
inductive Mutation where
  | createMenu (input : MenuInput)
  | updateMenu (id : String) (input : MenuInput)
  | deleteMenu (id : String)
  | seedMenus (forest : List MenuSeed)
  | createRole (input : RoleInput)
  | updateRole (id : String) (input : RoleInput)
  | deleteRole (id : String)
  | createUser (input : UserInput)
  | updateUser (id : String) (input : UserInput)
  | deleteUser (id : String)
  | updateStatus (id : String) (status : UserStatus)
  | updatePassword (id password : String)
  | changeOwnPassword (userId old new : String)

/-- The type of the answer to a mutation. -/
abbrev Mutation.Result : Mutation → Type
  | createMenu _ | updateMenu _ _ => Menu
  | seedMenus _ => Nat
  | createRole _ | updateRole _ _ => Role
  | createUser _ | updateUser _ _ => User
  | deleteMenu _ | deleteRole _ | deleteUser _ | updateStatus _ _ | updatePassword _ _
  | changeOwnPassword _ _ _ => Unit

/-- What a mutation does. -/
def Mutation.program (users : UserPolicy) (ctx : Context) : (m : Mutation) → Service m.Result
  | createMenu input => Menus.create ctx input
  | updateMenu id input => Menus.update ctx id input
  | deleteMenu id => Menus.delete ctx id
  | seedMenus forest => Menus.seed ctx forest
  | createRole input => Roles.create ctx input
  | updateRole id input => Roles.update ctx id input
  | deleteRole id => Roles.delete ctx id
  | createUser input => Users.create users ctx input
  | updateUser id input => Users.update users ctx id input
  | deleteUser id => Users.delete ctx id
  | updateStatus id status => Users.updateStatus ctx id status
  | updatePassword id password => Users.updatePassword users ctx id password
  | changeOwnPassword userId old new => Users.changeOwnPassword users ctx userId old new

/-- A mutation with everything it depends on. -/
structure Command where
  mutation : Mutation
  env : Surroundings
  users : UserPolicy
  ctx : Context := {}
  faults : List Fault := []

namespace Command

/-- Serves a command with its planned faults. -/
def run (q : Command) (w : World MemoryStore) :
    Option (Except ServiceError q.mutation.Result) × World MemoryStore :=
  World.run q.env (q.mutation.program q.users q.ctx).run { w with faults := q.faults }

/-- The same command without planned faults. -/
def undisturbed (q : Command) : Command := { q with faults := [] }

end Command

/-! ## Commits -/

open Service

/-- What a mutation commits: the work of its transaction, and the projections after it. -/
def Mutation.Commits (env : Surroundings) (users : UserPolicy) (actor : String) :
    (m : Mutation) → Desk → Except ServiceError m.Result → Desk → Prop
  | createMenu input => fun d r d' => Menus.fault? input.toMenuForm = none ∧
    Committed env (Menus.insert · actor input) (fun _ => pure) d r d'
  | updateMenu id input => fun d r d' => Menus.fault? input.toMenuForm = none ∧
    input.parentId ≠ id ∧
    Committed env (Menus.applyUpdate · id input)
      (fun s menu => do
        Projecting.afterCommit (discard (Projection.menuGrantees s menu.id))
        return menu) d r d'
  | deleteMenu id => Committed env (Menus.remove · id) fun s granting =>
    Projecting.afterCommit (Projecting.forAll granting fun role => discard (Projection.role s role))
  | seedMenus forest => Committed env (Menus.seeding · actor forest) fun _ => pure
  | createRole input => fun d r d' => Roles.fault? input = none ∧
    Committed env (Roles.insert · actor input)
      (fun s role => do
        Roles.project s role.id
        return role) d r d'
  | updateRole id input => fun d r d' => Roles.fault? input = none ∧
    Committed env (Roles.applyUpdate · id input)
      (fun s role => do
        Roles.project s role.id
        return role) d r d'
  | deleteRole id => Committed env (Roles.remove · id) fun _ _ =>
    Projecting.afterCommit (Projection.removeRole id)
  | createUser input => fun d r d' => Users.fault? users input = none ∧
    ∃ hash, Committed env (Users.insert · actor hash input)
      (fun s user => do
        Users.syncPolicy s user.id user.status
        return user) d r d'
  | updateUser id input => fun d r d' => Users.fault? users input = none ∧
    ∃ hash, Committed env (Users.applyUpdate · id hash input)
      (fun s user => do
        Users.syncPolicy s user.id user.status
        return user) d r d'
  | deleteUser id => Committed env (Users.remove · id) fun _ _ =>
    Projecting.afterCommit (Projection.removeUser id)
  | updateStatus id status => Committed env (Users.setStatus · id status) fun s _ =>
    Users.syncPolicy s id status
  | updatePassword id _ => fun d r d' => ∃ hash,
    Committed env (·.change (.updateUserPassword id hash)) (fun _ => pure) d r d'
  | changeOwnPassword userId _ _ => fun d r d' => ∃ hash,
    Committed env (·.change (.updateUserPassword userId hash)) (fun _ => pure) d r d'

section Contracts

variable {α β : Type} {env : Surroundings} {ctx : Context} {users : UserPolicy}
  {C : Desk → Except ServiceError β → Desk → Prop} {p : Service β}

open Session

/-- A transaction that nothing follows. -/
theorem contract_transaction {body : Session → Service α}
    (hbody : ∀ s : Session, s.Works (body s)) :
    Contract env (Service.session fun s => ctx.transaction s (body s))
      (Committed env body fun _ => pure) := by
  have h : Contract env (Service.session fun s => ctx.transaction s (body s) >>= pure)
      (Committed env body fun _ => pure) := contract_commit hbody fun s a => follows_pure a
  simpa only [bind_pure] using h

/-- What is done only for an input without a fault. -/
theorem contract_checked {check : Service Unit} {fault : Option String}
    (hcheck : (fault = none ∧ check = pure ()) ∨ ∃ e, e.Plain ∧ check = refuse e)
    (h : Contract env p C) :
    Contract env (check >>= fun _ => p) fun d r d' => fault = none ∧ C d r d' := by
  rcases hcheck with ⟨hf, rfl⟩ | ⟨e, he, rfl⟩
  · rw [pure_bind]
    exact h.mono fun _ _ _ hc => ⟨hf, hc⟩
  · exact contract_refuse he

theorem Menus.validate_cases (f : MenuForm) :
    (fault? f = none ∧ validate f = pure ()) ∨ ∃ e, e.Plain ∧ validate f = refuse e := by
  unfold validate
  split
  · exact .inl ⟨‹_›, rfl⟩
  · exact .inr ⟨_, plain_validation _, rfl⟩

theorem Roles.validate_cases (input : RoleInput) :
    (fault? input = none ∧ validate input = pure ()) ∨
      ∃ e, e.Plain ∧ validate input = refuse e := by
  unfold validate
  split
  · exact .inl ⟨‹_›, rfl⟩
  · exact .inr ⟨_, plain_validation _, rfl⟩

theorem Users.validate_cases (input : UserInput) :
    (fault? users input = none ∧ validate users input = pure ()) ∨
      ∃ e, e.Plain ∧ validate users input = refuse e := by
  unfold validate
  split
  · exact .inl ⟨‹_›, rfl⟩
  · exact .inr ⟨_, plain_validation _, rfl⟩

theorem quiet_hashed (password : String) : Quiet env (users.hashed password) :=
  quiet_freshSalt.bind fun _ => quiet_pure _

theorem contract_updatePassword (id password : String) :
    Contract env (Users.updatePassword users ctx id password) fun d r d' =>
      ∃ hash, Committed env (·.change (.updateUserPassword id hash)) (fun _ => pure) d r d' :=
  contract_ite (contract_refuse (plain_validation _)) <|
    (quiet_hashed password).contract fun hash =>
      (contract_transaction fun _ => works_change _).mono fun _ _ _ h => ⟨hash, h⟩

/-- Looking up the calling user changes nothing. -/
theorem quiet_activeUser (s : Session) (userId : String) :
    Quiet env (Menus.activeUser ctx s userId) := by
  refine (quiet_ask ctx s _).bind fun found => ?_
  cases found with
  | none => exact quiet_refuse (plain_forbidden _)
  | some user => exact quiet_ite (quiet_pure _) (quiet_refuse (plain_forbidden _))

theorem quiet_verifyPassword (username password : String) :
    Quiet env (Users.verifyPassword users ctx username password) :=
  Quiet.session fun s => (quiet_ask ctx s _).bind fun _ => quiet_pure _

theorem contract_updateMenu (id : String) (input : MenuInput) :
    Contract env (Menus.update ctx id input) fun d r d' => Menus.fault? input.toMenuForm = none ∧
      input.parentId ≠ id ∧ Committed env (Menus.applyUpdate · id input)
        (fun s menu => do
          Projecting.afterCommit (discard (Projection.menuGrantees s menu.id))
          return menu) d r d' := by
  unfold Menus.update
  split
  · exact contract_refuse (plain_validation _)
  · rename_i hid
    refine (contract_checked (Menus.validate_cases _) <|
      contract_commit (fun _ => Menus.works_applyUpdate id input) fun _ menu => ?_).mono
        fun _ _ _ ⟨hf, hc⟩ => ⟨hf, hid, hc⟩
    exact (projects_menuGrantees menu.id).discard.afterCommit.bind fun _ => follows_pure menu

theorem contract_createRole (input : RoleInput) :
    Contract env (Roles.create ctx input)
      ((Mutation.createRole input).Commits env users ctx.actor) :=
  contract_checked (Roles.validate_cases _) <|
    contract_commit (fun _ => Roles.works_insert ctx.actor input) fun _ role =>
      (Roles.follows_project role.id).bind fun _ => follows_pure role

theorem contract_updateRole (id : String) (input : RoleInput) :
    Contract env (Roles.update ctx id input)
      ((Mutation.updateRole id input).Commits env users ctx.actor) :=
  contract_checked (Roles.validate_cases _) <|
    contract_commit (fun _ => Roles.works_applyUpdate id input) fun _ role =>
      (Roles.follows_project role.id).bind fun _ => follows_pure role

theorem contract_deleteRole (id : String) :
    Contract env (Roles.delete ctx id)
      ((Mutation.deleteRole id).Commits env users ctx.actor) := by
  unfold Roles.delete
  exact contract_commit (fun _ => Roles.works_remove id) fun _ _ =>
    (projects_removeRole id).afterCommit

theorem contract_createUser (input : UserInput) :
    Contract env (Users.create users ctx input)
      ((Mutation.createUser input).Commits env users ctx.actor) := by
  refine contract_checked (Users.validate_cases _) ?_
  refine contract_ite (contract_refuse (plain_validation _)) ?_
  refine (quiet_hashed _).contract fun hash => ?_
  refine (contract_commit (fun _ => Users.works_insert _ hash input) fun _ user => ?_).mono
    fun _ _ _ h => ⟨hash, h⟩
  exact (Users.follows_syncPolicy user.id user.status).bind fun _ => follows_pure user

theorem contract_updateUser (id : String) (input : UserInput) :
    Contract env (Users.update users ctx id input)
      ((Mutation.updateUser id input).Commits env users ctx.actor) := by
  refine contract_checked (Users.validate_cases _) ?_
  have hafter (hash : Option String) : Contract env (Service.session fun s => do
      let user ← ctx.transaction s (Users.applyUpdate s id hash input)
      Users.syncPolicy s user.id user.status
      return user) fun d r d' => ∃ hash, Committed env (Users.applyUpdate · id hash input)
        (fun s user => do
          Users.syncPolicy s user.id user.status
          return user) d r d' := by
    refine (contract_commit (fun _ => Users.works_applyUpdate id hash input) fun _ user => ?_).mono
      fun _ _ _ h => ⟨hash, h⟩
    exact (Users.follows_syncPolicy user.id user.status).bind fun _ => follows_pure user
  dsimp only
  -- With or without a new password, the same transaction follows.
  split
  · exact (quiet_pure none).contract hafter
  · rw [map_eq_pure_bind]
    exact ((quiet_hashed _).bind fun _ => quiet_pure _).contract hafter

theorem contract_deleteUser (id : String) :
    Contract env (Users.delete ctx id)
      ((Mutation.deleteUser id).Commits env users ctx.actor) := by
  unfold Users.delete
  exact contract_commit (fun _ => Users.works_remove id) fun _ _ =>
    (projects_removeUser id).afterCommit

theorem contract_updateStatus (id : String) (status : UserStatus) :
    Contract env (Users.updateStatus ctx id status)
      ((Mutation.updateStatus id status).Commits env users ctx.actor) := by
  unfold Users.updateStatus
  exact contract_commit (fun _ => Users.works_setStatus id status) fun _ _ =>
    Users.follows_syncPolicy id status

theorem contract_deleteMenu (id : String) :
    Contract env (Menus.delete ctx id)
      ((Mutation.deleteMenu id).Commits env users ctx.actor) := by
  unfold Menus.delete
  exact contract_commit (fun _ => Menus.works_remove id) fun _ _ =>
    (projects_forAll fun role => (projects_role role).discard).afterCommit

theorem contract_seedMenus (forest : List MenuSeed) :
    Contract env (Menus.seed ctx forest)
      ((Mutation.seedMenus forest).Commits env users ctx.actor) := by
  unfold Menus.seed
  exact contract_transaction fun _ => Menus.works_seeding ctx.actor forest

variable (env users ctx) in
/-- Every mutation refuses or commits, and its answer tells which. -/
theorem Mutation.contract (m : Mutation) :
    Contract env (m.program users ctx) (m.Commits env users ctx.actor) := by
  cases m with
  | createMenu input =>
    exact contract_checked (Menus.validate_cases _)
      (contract_transaction fun _ => Menus.works_insert ctx.actor input)
  | updateMenu id input => exact contract_updateMenu id input
  | deleteMenu id => exact contract_deleteMenu id
  | seedMenus forest => exact contract_seedMenus forest
  | createRole input => exact contract_createRole input
  | updateRole id input => exact contract_updateRole id input
  | deleteRole id => exact contract_deleteRole id
  | createUser input => exact contract_createUser input
  | updateUser id input => exact contract_updateUser id input
  | deleteUser id => exact contract_deleteUser id
  | updateStatus id status => exact contract_updateStatus id status
  | updatePassword id password => exact contract_updatePassword id password
  | changeOwnPassword userId old new =>
    refine contract_ite (contract_refuse (plain_validation _)) ?_
    refine contract_ite (contract_refuse (plain_validation _)) ?_
    refine (Quiet.session fun s => quiet_activeUser s userId).contract fun user => ?_
    refine (quiet_verifyPassword _ _).contract fun right => ?_
    exact contract_ite (contract_updatePassword userId new) (contract_refuse (plain_validation _))

end Contracts

/-! ## Serving a command -/

/-- How a command ends, beside how it would end undisturbed: both refuse; or the undisturbed one
commits, and the command refuses, lags behind the commit, or ends the same way. -/
inductive Command.Outcome (q : Command) (w vc w' : World MemoryStore)
    (rc r : Except ServiceError q.mutation.Result) : Prop where
  | refused {ec e : ServiceError} : rc = .error ec → ec.Plain → vc.desk = w.desk →
      r = .error e → e.Plain → w'.desk = w.desk → Outcome q w vc w' rc r
  | committed : q.mutation.Commits q.env q.users q.ctx.actor w.desk rc vc.desk →
      (∀ e, rc = .error e → e.Stale) →
      ((∃ e, r = .error e ∧ e.Plain ∧ w'.desk = w.desk) ∨
        (∃ e, r = .error e ∧ e.Stale ∧ w'.tables = vc.tables) ∨ (r = rc ∧ w'.desk = vc.desk)) →
      Outcome q w vc w' rc r

/-- Every command is answered, with one of the outcomes. -/
theorem Command.run_outcome (q : Command) {w : World MemoryStore} (hi : w.Idle) :
    ∃ rc vc r w', q.undisturbed.run w = (some rc, vc) ∧ q.run w = (some r, w') ∧
      vc.Idle ∧ w'.Idle ∧ q.Outcome w vc w' rc r := by
  obtain ⟨rc, vc, ⟨ec, hec, href, hruns⟩ | ⟨hic, hcommit, hstale, hruns⟩⟩ :=
    q.mutation.contract q.env q.ctx q.users { w with faults := [] } rfl hi
  · obtain ⟨r, v', F', T', hr, -, ⟨rfl, rfl⟩ | ⟨e, he, hre⟩⟩ := hruns.disturbed q.faults w.time
    · exact ⟨r, v', r, _, hruns.clean, hr, href.idle, href.idle,
        .refused hec href.plain href.desk hec href.plain href.desk⟩
    · exact ⟨rc, vc, r, _, hruns.clean, hr, href.idle, hre.idle,
        .refused hec href.plain href.desk he hre.plain hre.desk⟩
  · obtain ⟨r, v', F', T', hr, -, ⟨rfl, rfl⟩ | ⟨e, he, hre | hre⟩⟩ :=
      hruns.disturbed q.faults w.time
    · exact ⟨r, v', r, _, hruns.clean, hr, hic, hic,
        .committed hcommit hstale (.inr (.inr ⟨rfl, rfl⟩))⟩
    · exact ⟨rc, vc, r, _, hruns.clean, hr, hic, hre.idle,
        .committed hcommit hstale (.inl ⟨e, he, hre.plain, hre.desk⟩)⟩
    · exact ⟨rc, vc, r, _, hruns.clean, hr, hic, hre.idle,
        .committed hcommit hstale (.inr (.inl ⟨e, he, hre.stale, hre.tables⟩))⟩

/-! ## Sequences of commands -/

/-- The ids of the stored menus, roles and users. -/
def Store.Tables.ids (t : Store.Tables) : List String :=
  t.menus.map Menu.id ++ t.roles.map Role.id ++ t.users.map User.id

/-- The ids still to come for some tables are not empty, differ from each other, and are none of the
used ones. -/
structure Surroundings.FreshFor (env : Surroundings) (used : List String) (t : Store.Tables) :
    Prop where
  nonempty : ∀ kind n, MemoryStore.createdOf t kind < n → env.idName kind n ≠ ""
  unused : ∀ kind n, MemoryStore.createdOf t kind < n → env.idName kind n ∉ used
  distinct : ∀ kind n kind' n', MemoryStore.createdOf t kind < n →
    MemoryStore.createdOf t kind' < n' → env.idName kind n = env.idName kind' n' →
      kind = kind' ∧ n = n'

/-- The worlds that sequences of admitted commands lead to from an empty store and an empty engine,
with the ids that were ever stored. Each command may have its own surroundings; the ids they give
are fresh. -/
inductive Reached (admits : Command → Prop) : List String → World MemoryStore → Prop where
  | start {w : World MemoryStore} : w.store.shared = {} → w.engine = {} → Reached admits [] w
  | step {used : List String} {w : World MemoryStore} (q : Command) : Reached admits used w →
      admits q → q.env.FreshFor used w.tables →
      Reached admits ((q.run w).2.tables.ids ++ used) (q.run w).2

theorem Reached.mono {admits admits' : Command → Prop} (hadmits : ∀ q, admits q → admits' q)
    {used : List String} {w : World MemoryStore} (h : Reached admits used w) :
    Reached admits' used w := by
  induction h with
  | start hst he => exact .start hst he
  | step q _ hq hf ih => exact .step q ih (hadmits q hq) hf

theorem Reached.idle {admits : Command → Prop} {used : List String} {w : World MemoryStore}
    (h : Reached admits used w) : w.Idle := by
  induction h with
  | start hst _ => rw [World.Idle, hst]
  | step q _ _ _ ih =>
    obtain ⟨_, _, r, w', -, hr, -, hi, -⟩ := q.run_outcome ih
    rw [hr]
    exact hi

end AccessAdmin
