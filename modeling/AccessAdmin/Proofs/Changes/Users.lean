import AccessAdmin.Proofs.Changes.Roles

/-!
# What user mutations change

The work of a user mutation that succeeds, told by the tables before and after it.

* `Users.Added`: a user is inserted with its assignments.
* `Users.Updated`: a user is updated and its assignments are replaced.
* `Users.Removed`: a user is removed with its assignments.
* `Users.withStatus`: what a new status makes of the users.
-/

namespace AccessAdmin

namespace Users

open Service
open Store.Tables (find_row)
open Session (ends_ask_then ends_change_then ends_changeAll_then surely_ask_then)

variable {β : Type} {env : Surroundings} {s : Session} {d d' : Desk} {t t' : Store.Tables}

/-! ## The checks -/

theorem any_named (t : Store.Tables) (username : String) (own : Option String) :
    ((t.matchingUsers (.named username)).any fun u => some u.id != own) =
      t.users.any fun u => u.username == username && some u.id != own := by
  rw [Bool.eq_iff_iff, List.any_eq_true, List.any_eq_true]
  simp only [Store.Tables.matchingUsers, List.mem_mergeSort, List.mem_filter, UserFilter.admits,
    UserFilter.named, Option.all_none, Option.all_some, Bool.and_true, Bool.true_and,
    Bool.and_eq_true, and_assoc]

/-- What follows the check of the username. -/
theorem surely_ensureUsernameFree_then {username : String} {own : Option String}
    {f : Unit → Service β} {C : Except ServiceError β → Desk → Prop} :
    (ensureUsernameFree s username own >>= f).run.Surely env s.id C d ↔
      if d.tables.users.any fun u => u.username == username && some u.id != own then
        C (.error (.validation s!"username {username} already exists")) d
      else (f ()).run.Surely env s.id C d := by
  rw [ensureUsernameFree, bind_assoc, surely_ask_then, ← any_named]
  show ((if (d.tables.matchingUsers (.named username)).any (fun u => some u.id != own) then
    Service.refuse _ else pure ()) >>= f).run.Surely env s.id C d ↔ _
  cases (d.tables.matchingUsers (.named username)).any fun u => some u.id != own with
  | true => rfl
  | false => rfl

variable (env) in
/-- What follows a look for the roles with some ids. -/
theorem surely_withIds_then (s : Session) (d : Desk) (ids : List String) :
    ∃ found : List Role,
      (∀ id ∈ ids, found.any (·.id == id) = d.tables.roles.any (·.id == id)) ∧
      ∀ {β : Type} {f : List Role → Service β} {C},
        (Roles.withIds s ids >>= f).run.Surely env s.id C d ↔
          (f found).run.Surely env s.id C d := by
  by_cases hids : ids.isEmpty = true
  · rw [List.isEmpty_iff] at hids
    subst hids
    exact ⟨[], (fun _ h => nomatch h), Iff.rfl⟩
  · refine ⟨d.tables.matchingRoles (.withIds ids), fun id hid => ?_, ?_⟩
    · rw [Bool.eq_iff_iff, List.any_eq_true, List.any_eq_true]
      simp only [Store.Tables.matchingRoles, List.mem_mergeSort, List.mem_filter, RoleFilter.admits,
        RoleFilter.withIds, Option.all_some, Option.all_none, Bool.and_true, List.contains_iff_mem]
      constructor
      · rintro ⟨r, ⟨hr, -⟩, hrid⟩
        exact ⟨r, hr, hrid⟩
      · rintro ⟨r, hr, hrid⟩
        exact ⟨r, ⟨hr, beq_iff_eq.mp hrid ▸ hid⟩, hrid⟩
    · intro β f C
      rw [Roles.withIds, if_neg hids, bind_assoc, surely_ask_then, pure_bind]
      rfl

/-- What follows the check of the assigned roles. -/
theorem surely_ensureRolesExist_then {roleIds : List String} {f : Unit → Service β}
    {C : Except ServiceError β → Desk → Prop} :
    (ensureRolesExist s roleIds >>= f).run.Surely env s.id C d ↔
      match roleIds.find? fun id => !d.tables.roles.any (·.id == id) with
      | some id => C (.error (.notFound s!"role {id} not found")) d
      | none => (f ()).run.Surely env s.id C d := by
  obtain ⟨found, hfound, hthen⟩ := surely_withIds_then env s d roleIds
  rw [ensureRolesExist, bind_assoc, hthen, List.find?_congr fun id hid => by rw [hfound id hid]]
  cases roleIds.find? fun id => !d.tables.roles.any (·.id == id) with
  | some id => rfl
  | none => rfl

theorem ends_ensureUsernameFree {username : String} {own : Option String} {u : Unit}
    (h : (ensureUsernameFree s username own).run.Ends env s.id d (.ok u) d') : d' = d := by
  have hsure : (ensureUsernameFree s username own).run.Surely env s.id
      (fun a d' => a = .ok u → d' = d) d := by
    rw [← bind_pure (ensureUsernameFree s username own), surely_ensureUsernameFree_then]
    split
    · exact fun he => nomatch he
    · exact fun _ => rfl
  exact hsure.ends h rfl

theorem ends_ensureRolesExist {roleIds : List String} {u : Unit}
    (h : (ensureRolesExist s roleIds).run.Ends env s.id d (.ok u) d') :
    d' = d ∧ ∀ id ∈ roleIds, ∃ r ∈ d.tables.roles, r.id = id := by
  have hsure : (ensureRolesExist s roleIds).run.Surely env s.id (fun a d' => a = .ok u →
      d' = d ∧ ∀ id ∈ roleIds, ∃ r ∈ d.tables.roles, r.id = id) d := by
    rw [← bind_pure (ensureRolesExist s roleIds), surely_ensureRolesExist_then]
    split
    · exact fun he => nomatch he
    · rename_i hnone
      exact fun _ => ⟨rfl, found_of_find?_eq_none hnone⟩
  exact hsure.ends h rfl

/-! ## Insertions -/

/-- A user is inserted with its assignments. -/
structure Added (env : Surroundings) (input : UserInput) (t : Store.Tables) (row : User)
    (t' : Store.Tables) : Prop where
  id : row.id = env.idName .user (t.created.users + 1)
  fresh : ∀ u ∈ t.users, u.id ≠ row.id
  assigned : ∀ id ∈ input.roleIds, ∃ r ∈ t.roles, r.id = id
  status : row.status = input.status
  tables : t' = { t with
    lastRowId := t.lastRowId + 1
    created := { t.created with users := t.created.users + 1 }
    users := t.users ++ [row]
    userRoles := t.userRoles ++ input.assignmentsFor row.id }

theorem row_of_createUser {u : User} (h : t.createUser u = .ok t') :
    ∃ row, row.id = u.id ∧ row.status = u.status ∧ (∀ x ∈ t.users, x.id ≠ u.id) ∧
      t' = { t with
        lastRowId := t.lastRowId + 1
        created := { t.created with users := t.created.users + 1 }
        users := t.users ++ [row] } := by
  obtain ⟨hfresh, -, rfl⟩ := Store.Tables.createUser_eq_ok.1 h
  exact ⟨_, by rfl, by rfl, hfresh, rfl⟩

theorem ends_insert {actor hash : String} {input : UserInput} {user : User}
    (h : (insert s actor hash input).run.Ends env s.id d (.ok user) d') :
    ∃ row, Added env input d.tables row d'.tables ∧ user.id = row.id ∧
      user.status = input.status := by
  rw [insert] at h
  obtain ⟨_, -, h⟩ := ends_look (fun _ _ h => ⟨ends_ensureUsernameFree h, trivial⟩) h
  obtain ⟨_, hassigned, h⟩ := ends_look (fun _ _ => ends_ensureRolesExist) h
  replace h := ends_freshId_then.1 h
  obtain ⟨now, h⟩ := ends_readClock_then.1 h
  obtain ⟨t₁, h₁, h⟩ := ends_change_then.1 h
  obtain ⟨t₂, h₂, h⟩ := ends_changeAll_then.1 h
  obtain ⟨row, hrow, hstatus, hfresh, rfl⟩ := row_of_createUser h₁
  obtain rfl := Store.Column.assignments.inserts h₂
  obtain ⟨huser, rfl⟩ := ends_pure.1 h
  refine ⟨row, ⟨hrow, fun u hu => hrow ▸ hfresh u hu, hassigned, hstatus, ?_⟩, ?_, ?_⟩
  · rw [hrow]
    rfl
  · rw [Except.ok.inj huser, hrow]
  · rw [Except.ok.inj huser]

/-! ## Updates -/

/-- A user is updated, and its assignments are replaced. -/
structure Updated (id : String) (input : UserInput) (t t' : Store.Tables) : Prop where
  found : ∃ u ∈ t.users, u.id = id
  assigned : ∀ id ∈ input.roleIds, ∃ r ∈ t.roles, r.id = id
  users : ∃ f, t'.users = t.users.map f ∧ ∀ u ∈ t.users, (f u).id = u.id ∧
    (f u).status = if u.id = id then input.status else u.status
  mem_assignments : ∀ a, a ∈ t'.userRoles ↔
    (a ∈ t.userRoles ∧ a.userId ≠ id) ∨ a ∈ input.assignmentsFor id
  frame : t' = { t with users := t'.users, userRoles := t'.userRoles }

theorem amendUser_eq {id : String} {set : User → User} (h : t.amendUser id set = .ok t') :
    (∃ u ∈ t.users, u.id = id) ∧
      t' = { t with users := t.users.map fun u => if u.id == id then set u else u } := by
  obtain ⟨users, husers, rfl⟩ := Store.Tables.bind_pure_eq_ok.1 h
  obtain ⟨hany, rfl⟩ := Store.Tables.amend_eq_ok.1 husers
  obtain ⟨u, hu, he⟩ := List.any_eq_true.1 hany
  exact ⟨⟨u, hu, beq_iff_eq.1 he⟩, rfl⟩

/-- A change of users that leaves every id and every status as it is. -/
def Calm (f : User → User) : Prop := ∀ u, (f u).id = u.id ∧ (f u).status = u.status

theorem updateUser_eq {u : User} (h : t.apply (.updateUser u) = .ok t') :
    ∃ f, Calm f ∧ t' = { t with users := t.users.map f } := by
  obtain ⟨-, users, husers, rfl⟩ := Store.Tables.updateUser_eq_ok.1 h
  obtain ⟨-, rfl⟩ := Store.Tables.amend_eq_ok.1 husers
  refine ⟨_, fun x => ?_, rfl⟩
  split <;> exact ⟨rfl, rfl⟩

theorem updateUserPassword_eq {id hash : String}
    (h : t.apply (.updateUserPassword id hash) = .ok t') :
    (∃ u ∈ t.users, u.id = id) ∧ ∃ f, Calm f ∧ t' = { t with users := t.users.map f } := by
  obtain ⟨hfound, ht⟩ := amendUser_eq h
  refine ⟨hfound, _, fun x => ?_, ht⟩
  split <;> exact ⟨rfl, rfl⟩

/-- The status that a user is set to. -/
def withStatus (id : String) (status : UserStatus) (u : User) : User :=
  if u.id == id then { u with status := status } else u

theorem withStatus_id {id : String} {status : UserStatus} {u : User} :
    (withStatus id status u).id = u.id := by
  unfold withStatus
  split <;> rfl

theorem withStatus_status {id : String} {status : UserStatus} {u : User} :
    (withStatus id status u).status = if u.id = id then status else u.status := by
  unfold withStatus
  by_cases h : u.id = id
  · rw [if_pos (beq_iff_eq.2 h), if_pos h]
  · rw [if_neg fun he => h (beq_iff_eq.1 he), if_neg h]

theorem updateUserStatus_eq {id : String} {status : UserStatus}
    (h : t.apply (.updateUserStatus id status) = .ok t') :
    t' = { t with users := t.users.map (withStatus id status) } := (amendUser_eq h).2

theorem owner_assignmentsFor {input : UserInput} {id : String} {a : Assignment}
    (h : a ∈ input.assignmentsFor id) : a.userId = id := by
  obtain ⟨_, -, rfl⟩ := List.mem_map.1 h
  rfl

/-- The roles of a description without a fault are distinct. -/
theorem nodup_assignmentsFor {p : UserPolicy} {input : UserInput} (hf : fault? p input = none)
    (id : String) : ((input.assignmentsFor id).map Assignment.roleId).Nodup := by
  have hnodup : input.roleIds.Nodup := by
    unfold fault? at hf
    split at hf
    · cases hf
    · split at hf
      · cases hf
      · exact firstDuplicate_eq_none.mp (Option.map_eq_none_iff.mp hf)
  rw [UserInput.assignmentsFor, List.map_map]
  exact (List.map_id _).symm ▸ hnodup

open Store (replaced_of_plan mem_replaced) in
/-- The assignments of a user are replaced. An assignment is its own key, so the plan has nothing to
update, and what the user has in the end is told whatever it had before. -/
theorem sync_assignments {id : String} {new : List Assignment} {t₁ : Store.Tables}
    (hnew : ∀ x ∈ new, x.userId = id)
    (h₁ : t.applyAll ((Store.Column.assignments.plan t id new).delete.map fun a =>
      .deleteUserRole id a.roleId) = .ok t₁)
    (h₂ : t₁.applyAll ((Store.Column.assignments.plan t id new).create.map .createUserRole) =
      .ok t') :
    ∃ rows, t' = { t with userRoles := rows } ∧
      (∀ a, a ∈ rows ↔ (a ∈ t.userRoles ∧ a.userId ≠ id) ∨ a ∈ new) ∧
      Store.Replaced Assignment.userId Assignment.roleId id new t.userRoles rows := by
  have hsame : ∀ a b : Assignment, a.userId = id → b ∈ new → a.roleId = b.roleId → a = b :=
    fun a b ha hb hkey => (Assignment.mk.injEq ..).mpr ⟨ha.trans (hnew b hb).symm, hkey⟩
  have hinj : ∀ a ∈ new, ∀ b ∈ new, a.roleId = b.roleId → a = b :=
    fun a ha b hb => hsame a b (hnew a ha) hb
  have hown : ∀ a ∈ t.userRoles.filter (fun r =>
      !(r.userId == id && !(new.map Assignment.roleId).contains r.roleId)), a.userId = id →
      a ∈ new := by
    intro a ha howner
    obtain ⟨-, hstays⟩ := List.mem_filter.mp ha
    rw [howner, BEq.rfl, Bool.true_and, Bool.not_not, List.contains_iff_mem] at hstays
    obtain ⟨b, hb, hkey⟩ := List.mem_map.mp hstays
    exact hsame a b howner hb hkey.symm ▸ hb
  have hplan := Store.Column.assignments.create_eq t id new
  obtain rfl := Except.ok.inj ((Store.Column.assignments.deletes_plan t id new).symm.trans h₁)
  have hrows := Store.Column.assignments.inserts h₂
  exact ⟨_, hrows,
    mem_replaced hnew hinj rfl hplan rfl rfl hown,
    replaced_of_plan hnew hinj rfl hplan rfl rfl (fun _ => .inl) fun _ => hown⟩

theorem ends_syncRoles {id : String} {input : UserInput} {u : Unit}
    (h : (syncRoles s id input).run.Ends env s.id d (.ok u) d') :
    ∃ rows, d'.tables = { d.tables with userRoles := rows } ∧
      (∀ a, a ∈ rows ↔ (a ∈ d.tables.userRoles ∧ a.userId ≠ id) ∨ a ∈ input.assignmentsFor id) ∧
      Store.Replaced Assignment.userId Assignment.roleId id (input.assignmentsFor id)
        d.tables.userRoles rows := by
  rw [syncRoles] at h
  replace h := ends_ask_then.1 h
  obtain ⟨t₁, h₁, h⟩ := ends_changeAll_then.1 h
  obtain ⟨t₂, h₂, rfl⟩ := Session.ends_changeAll_ok.1 h
  exact sync_assignments (fun _ => owner_assignmentsFor) h₁ h₂

/-- The end of an update: perhaps a new password, and the answer. -/
theorem ends_passwordThen {id : String} {hash : Option String} {x user : User}
    (h : (match hash with
      | some hash => s.change (.updateUserPassword id hash) >>= fun _ => pure x
      | _ => (pure x : Service User)).run.Ends env s.id d (.ok user) d') :
    user = x ∧ ∃ p, Calm p ∧ d'.tables = { d.tables with users := d.tables.users.map p } := by
  cases hash with
  | none =>
    obtain ⟨huser, rfl⟩ := ends_pure.1 h
    exact ⟨Except.ok.inj huser, fun u => u, fun _ => ⟨rfl, rfl⟩, by rw [List.map_id']⟩
  | some hash =>
    obtain ⟨t₁, h₁, h⟩ := ends_change_then.1 h
    obtain ⟨huser, rfl⟩ := ends_pure.1 h
    exact ⟨Except.ok.inj huser, (updateUserPassword_eq h₁).2⟩

/-- With the ids distinct, a status that is not set is already the one that is asked for. -/
theorem status_kept {old : User} {status : UserStatus} (hnodup : (t.users.map User.id).Nodup)
    (hmem : old ∈ t.users) (hsame : ¬(old.status != status) = true) {u : User} (hu : u ∈ t.users) :
    u.status = if u.id = old.id then status else u.status := by
  split
  · rename_i he
    obtain rfl := List.inj_on_of_nodup_map hnodup hu hmem he
    exact not_not.1 (mt bne_iff_ne.2 hsame)
  · rfl

theorem ends_applyUpdate {id : String} {hash : Option String} {input : UserInput} {user : User}
    (hnodup : (d.tables.users.map User.id).Nodup)
    (h : (applyUpdate s id hash input).run.Ends env s.id d (.ok user) d') :
    user.id = id ∧ user.status = input.status ∧ Updated id input d.tables d'.tables := by
  rw [applyUpdate] at h
  replace h := ends_ask_then.1 h
  cases hold : d.tables.ask (.getUser id) with
  | none =>
    simp only [hold] at h
    exact (not_ends_refuse h).elim
  | some old =>
    simp only [hold] at h
    obtain ⟨hmem, rfl⟩ := find_row hold
    obtain ⟨_, -, h⟩ := ends_look (fun _ _ h => ⟨ends_ensureUsernameFree h, trivial⟩) h
    obtain ⟨_, hassigned, h⟩ := ends_look (fun _ _ => ends_ensureRolesExist) h
    obtain ⟨_, d₁, hsync, h⟩ := ends_seq_ok.1 h
    obtain ⟨rows, htables, hrows, -⟩ := ends_syncRoles hsync
    obtain ⟨now, h⟩ := ends_readClock_then.1 h
    obtain ⟨t₁, h₁, h⟩ := ends_change_then.1 h
    obtain ⟨f, hf, rfl⟩ := updateUser_eq h₁
    rw [htables] at h
    dsimp only at h
    split at h
    · obtain ⟨t₂, h₂, h⟩ := ends_change_then.1 h
      obtain rfl := updateUserStatus_eq h₂
      obtain ⟨rfl, p, hp, ht⟩ := ends_passwordThen h
      simp only [List.map_map] at ht
      refine ⟨rfl, rfl, ⟨old, hmem, rfl⟩, hassigned, ⟨_, by rw [ht], fun u _ => ⟨?_, ?_⟩⟩,
        by rw [ht]; exact hrows, by rw [ht]⟩
      · exact ((hp _).1.trans withStatus_id).trans (hf u).1
      · refine (hp _).2.trans (withStatus_status.trans ?_)
        rw [(hf u).1, (hf u).2]
    · rename_i hsame
      obtain ⟨rfl, p, hp, ht⟩ := ends_passwordThen h
      simp only [List.map_map] at ht
      refine ⟨rfl, rfl, ⟨old, hmem, rfl⟩, hassigned, ⟨_, by rw [ht], fun u hu => ⟨?_, ?_⟩⟩,
        by rw [ht]; exact hrows, by rw [ht]⟩
      · exact (hp _).1.trans (hf u).1
      · exact ((hp _).2.trans (hf u).2).trans (status_kept hnodup hmem hsame hu)

/-! ## Removals and single columns -/

/-- A user is removed with its assignments. -/
structure Removed (id : String) (t t' : Store.Tables) : Prop where
  found : ∃ u ∈ t.users, u.id = id
  tables : t' = { t with
    users := t.users.filter (·.id != id)
    userRoles := t.userRoles.filter (·.userId != id) }

theorem ends_remove {id : String} {u : Unit}
    (h : (remove s id).run.Ends env s.id d (.ok u) d') : Removed id d.tables d'.tables := by
  rw [remove] at h
  replace h := ends_ask_then.1 h
  cases hold : d.tables.ask (.getUser id) with
  | none =>
    simp only [hold] at h
    exact (not_ends_refuse h).elim
  | some x =>
    simp only [hold] at h
    obtain ⟨t₁, h₁, h⟩ := ends_change_then.1 h
    obtain ⟨t₂, h₂, rfl⟩ := Session.ends_change_ok.1 h
    obtain rfl := Except.ok.inj h₁
    obtain rfl := Except.ok.inj h₂
    exact ⟨⟨x, find_row hold⟩, rfl⟩

theorem ends_setStatus {id : String} {status : UserStatus} {u : Unit}
    (h : (setStatus s id status).run.Ends env s.id d (.ok u) d') :
    (∃ u ∈ d.tables.users, u.id = id) ∧
      d'.tables = { d.tables with users := d.tables.users.map (withStatus id status) } := by
  rw [setStatus] at h
  replace h := ends_ask_then.1 h
  cases hold : d.tables.ask (.getUser id) with
  | none =>
    simp only [hold] at h
    exact (not_ends_refuse h).elim
  | some x =>
    simp only [hold] at h
    obtain ⟨t₁, h₁, rfl⟩ := Session.ends_change_ok.1 h
    exact ⟨⟨x, find_row hold⟩, updateUserStatus_eq h₁⟩

theorem ends_setPassword {id hash : String} {u : Unit}
    (h : (s.change (.updateUserPassword id hash)).run.Ends env s.id d (.ok u) d') :
    (∃ u ∈ d.tables.users, u.id = id) ∧
      ∃ f, Calm f ∧ d'.tables = { d.tables with users := d.tables.users.map f } := by
  obtain ⟨t₁, h₁, rfl⟩ := Session.ends_change_ok.1 h
  exact updateUserPassword_eq h₁

end Users

end AccessAdmin
