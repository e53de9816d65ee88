import AccessAdmin.Proofs.Changes.Users
import AccessAdmin.Proofs.Outcomes.Plans

/-!
# What becomes of a user update

An update of a stored user with a well-formed description is refused for a username that another
user has, or else for the first assigned role that is not stored. Nothing else stands in its way:
the assignments are replaced, and the profile, the status and the password are set one after the
other.

* `Users.refusal?`: why the stored rows do not admit a description.
* `Users.Saved`: a user is stored with its assignments, as it is answered.
* `Users.surely_applyUpdate`: the update in its transaction.
-/

namespace AccessAdmin

open Service

namespace Users

/-- Why a description is refused for a user, if it is: another user has the username, or an assigned
role is not stored. -/
def refusal? (t : Store.Tables) (own : Option String) (input : UserInput) : Option ServiceError :=
  if t.users.any fun u => u.username == input.username && some u.id != own then
    some (.validation s!"username {input.username} already exists")
  else
    (input.roleIds.find? fun id => !t.roles.any (·.id == id)).map
      fun id => .notFound s!"role {id} not found"

/-- Why an update is refused, if it is: the user is not stored, or the stored rows do not admit the
description. -/
def storedRefusal? (t : Store.Tables) (id : String) (input : UserInput) : Option ServiceError :=
  if t.users.any (·.id == id) then refusal? t (some id) input
  else some (.notFound s!"user {id} not found")

open Session (surely_ask_then surely_change_then surely_changeAll_then)

variable {β : Type} {env : Surroundings} {s : Session} {d : Desk} {t : Store.Tables}
  {C : Except ServiceError β → Desk → Prop}

/-! ## The checks -/

/-- What follows the checks of a description. -/
theorem surely_checks_then {own : Option String} {input : UserInput} {f : Unit → Service β}
    (hrefused : ∀ e, refusal? d.tables own input = some e → C (.error e) d)
    (hthen : refusal? d.tables own input = none → (f ()).run.Surely env s.id C d) :
    (ensureUsernameFree s input.username own >>= fun _ =>
      ensureRolesExist s input.roleIds >>= f).run.Surely env s.id C d := by
  rw [surely_ensureUsernameFree_then]
  unfold refusal? at hrefused hthen
  split
  · rename_i htaken
    exact hrefused _ (if_pos htaken)
  · rename_i hfree
    rw [if_neg hfree] at hrefused hthen
    rw [surely_ensureRolesExist_then]
    split
    · rename_i missing hmissing
      rw [hmissing] at hrefused
      exact hrefused _ rfl
    · rename_i hnone
      rw [hnone] at hthen
      exact hthen rfl

/-- A description that is not refused has a username that no other user has. -/
theorem username_free {own : Option String} {input : UserInput} (h : refusal? t own input = none) :
    (t.users.any fun u => u.username == input.username && some u.id != own) = false := by
  unfold refusal? at h
  split at h
  · cases h
  · rename_i hfree
    exact Bool.eq_false_iff.mpr hfree

/-! ## The changes -/

/-- What follows the replacement of the assignments, which always goes through. -/
theorem surely_syncRoles_then {p : UserPolicy} {id : String} {input : UserInput}
    (hf : fault? p input = none) {f : Unit → Service β}
    (h : ∀ rows, Store.Replaced Assignment.userId Assignment.roleId id (input.assignmentsFor id)
        d.tables.userRoles rows →
      (f ()).run.Surely env s.id C { d with tables := { d.tables with userRoles := rows } }) :
    (syncRoles s id input >>= f).run.Surely env s.id C d := by
  have hown : ∀ a ∈ input.assignmentsFor id, a.userId = id := fun _ => owner_assignmentsFor
  have h₁ := Store.Column.assignments.deletes_plan d.tables id (input.assignmentsFor id)
  have h₂ := Store.Column.assignments.creates_sure (t := d.tables)
    (u := Store.Column.assignments.put d.tables
      (Store.Column.assignments.kept d.tables id (input.assignmentsFor id)))
    (List.map_subset _ (List.filter_subset_self _)) hown (nodup_assignmentsFor hf id)
  obtain ⟨rows, hrows, -, hreplaced⟩ := sync_assignments hown h₁ h₂
  rw [hrows] at h₂
  rw [syncRoles, bind_assoc, surely_ask_then]
  dsimp only
  simp only [bind_assoc]
  exact surely_changeAll_then h₁ (surely_changeAll_then h₂ (h rows hreplaced))

/-! ## The update -/

/-- A user is stored with the assignments of a description, as it is answered but for the number of
its row; what menus, roles and other users own is as it was. -/
structure Saved (input : UserInput) (t : Store.Tables) (user : User) (t' : Store.Tables) : Prop where
  row : ∃ row, t'.users.find? (·.id == user.id) = some row ∧
    user = { row with rowId := user.rowId, roles := input.assignmentsFor user.id }
  assignments : Store.Replaced Assignment.userId Assignment.roleId user.id
    (input.assignmentsFor user.id) t.userRoles t'.userRoles
  actions : t'.menuActions = t.menuActions
  resources : t'.menuResources = t.menuResources
  grants : t'.roleMenus = t.roleMenus

/-- The row of a user after its profile is updated. -/
def revised (old : User) (input : UserInput) (now : Timestamp) : User :=
  { old with
    username := input.username
    realName := input.realName
    email := input.email
    phone := input.phone
    updatedAt := now }

/-- A stored user is amended. -/
theorem amendUser_sure {old : User} (hold : t.users.find? (·.id == old.id) = some old)
    (set : User → User) (hset : ∀ u, (set u).id = u.id) :
    ∃ users, users.find? (·.id == old.id) = some (set old) ∧
      t.amendUser old.id set = .ok { t with users := users } := by
  have hthere : t.users.any (·.id == old.id) = true :=
    Store.Tables.any_row.mpr ⟨old, Store.Tables.find_row hold⟩
  refine ⟨_, ?_,
    Store.Tables.bind_pure_eq_ok.mpr ⟨_, Store.Tables.amend_eq_ok.mpr ⟨hthere, rfl⟩, rfl⟩⟩
  rw [Store.Tables.find_amended User.id set hset, hold]
  rfl

/-- A stored user takes a username that no other user has. -/
theorem apply_updateUser (row : User) {old : User} (hold : t.users.find? (·.id == old.id) = some old)
    (hid : row.id = old.id)
    (hfree : (t.users.any fun u => u.username == row.username && some u.id != some old.id) = false) :
    ∃ users, users.find? (·.id == old.id) = some { old with
        username := row.username, realName := row.realName, email := row.email, phone := row.phone,
        updatedAt := row.updatedAt } ∧
      t.apply (.updateUser row) = .ok { t with users := users } := by
  have hname : ¬(t.users.any fun u => u.username == row.username && u.id != row.id) = true := by
    rw [hid, Bool.not_eq_true, ← hfree]
    rfl
  rw [Store.Tables.apply, Store.Tables.updateUser, if_neg hname, hid]
  exact amendUser_sure hold (fun u => { u with
    username := row.username, realName := row.realName, email := row.email, phone := row.phone,
    updatedAt := row.updatedAt }) fun _ => rfl

/-- The end of an update: perhaps a new password, and the answer. -/
theorem surely_passwordThen (row : User) {user : User} {hash : Option String}
    {C : Except ServiceError User → Desk → Prop}
    (hrow : d.tables.users.find? (·.id == row.id) = some row) :
    (∀ users, users.find? (·.id == row.id) =
        some { row with passwordHash := hash.getD row.passwordHash } →
      C (.ok user) { d with tables := { d.tables with users := users } }) →
    (match hash with
      | some hash => s.change (.updateUserPassword row.id hash) >>= fun _ => pure user
      | _ => (pure user : Service User)).run.Surely env s.id C d := by
  intro h
  cases hash with
  | none => exact h d.tables.users hrow
  | some hash =>
    obtain ⟨users, hfound, happly⟩ := amendUser_sure hrow
      (fun u => { u with passwordHash := hash }) fun _ => rfl
    exact surely_change_then happly (h users hfound)

/-- The update in its transaction is refused for one of the reasons, or else goes through. -/
theorem surely_applyUpdate {p : UserPolicy} {id : String} {hash : Option String}
    {input : UserInput} (hf : fault? p input = none) :
    (applyUpdate s id hash input).run.Surely env s.id (fun r d' =>
      (∃ e, storedRefusal? d.tables id input = some e ∧ r = .error e) ∨
        storedRefusal? d.tables id input = none ∧ ∃ user, r = .ok user ∧ user.id = id ∧
          Saved input d.tables user d'.tables) d := by
  rw [applyUpdate, surely_ask_then]
  unfold storedRefusal?
  cases hold : d.tables.ask (.getUser id) with
  | none =>
    dsimp only
    have hnone : ¬d.tables.users.any (·.id == id) = true := by
      intro hany
      obtain ⟨x, hx, hid⟩ := Store.Tables.any_row.mp hany
      exact Store.Tables.find_row_eq_none.mp hold x hx hid
    exact .inl ⟨_, if_neg hnone, rfl⟩
  | some old =>
    dsimp only
    obtain ⟨hmem, rfl⟩ := Store.Tables.find_row hold
    rw [if_pos (Store.Tables.any_row.mpr ⟨old, hmem, rfl⟩)]
    refine surely_checks_then (fun e hrefused => .inl ⟨e, hrefused, rfl⟩) fun hnone => ?_
    refine surely_syncRoles_then hf fun rows hrows => surely_readClock_then fun now => ?_
    obtain ⟨users, hrow, happly⟩ := apply_updateUser (revised old input now)
      (t := { d.tables with userRoles := rows }) hold rfl (username_free hnone)
    refine surely_change_then happly ?_
    let user := revised old input now
    replace hrow : users.find? (·.id == user.id) = some user := hrow
    dsimp only
    split
    · obtain ⟨users', hrow', happly'⟩ := amendUser_sure
        (t := { d.tables with userRoles := rows, users := users }) hrow
        (fun u => { u with status := input.status }) fun _ => rfl
      refine surely_change_then happly' ?_
      refine surely_passwordThen { user with status := input.status } hrow' fun users hrow => ?_
      exact .inr ⟨hnone, _, rfl, rfl, ⟨_, hrow, rfl⟩, hrows, rfl, rfl, rfl⟩
    · rename_i hsame
      have hstatus : user.status = input.status := not_not.mp (mt bne_iff_ne.mpr hsame)
      refine surely_passwordThen user hrow fun users hrow => ?_
      rw [← hstatus]
      exact .inr ⟨hnone, _, rfl, rfl, ⟨_, hrow, rfl⟩, hrows, rfl, rfl, rfl⟩

end Users

end AccessAdmin
