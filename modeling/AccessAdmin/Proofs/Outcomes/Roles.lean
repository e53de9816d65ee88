import AccessAdmin.Proofs.Changes.Roles
import AccessAdmin.Proofs.Outcomes.Plans
import AccessAdmin.Proofs.Running.Outcome

/-!
# What becomes of a role update

An update of a stored role with a well-formed description is refused for a name that another role
has, or else for the first granted menu that is not stored. Nothing else stands in its way.

* `Roles.refusal?`: why the stored rows do not admit a description.
* `Roles.Saved`: a role is stored with its grants, as it is answered.
* `Roles.surely_applyUpdate`: the update in its transaction.
* `Roles.comes_update`: the whole update.
-/

namespace AccessAdmin

open Service

namespace Roles

/-- Why a description is refused for a role, if it is: another role has the name, or a granted menu
is not stored. -/
def refusal? (t : Store.Tables) (own : Option String) (input : RoleInput) : Option ServiceError :=
  if t.roles.any fun r => r.name == input.name && some r.id != own then
    some (.validation s!"role name {input.name} already exists")
  else
    ((input.grants.map GrantInput.menuId).find? fun id => !t.menus.any (·.id == id)).map
      fun id => .notFound s!"menu {id} not found"

/-- Why an update of a role is refused, if it is: the description has a fault, the role is not
stored, or the stored rows do not admit the description. -/
def updateRefusal? (t : Store.Tables) (id : String) (input : RoleInput) : Option ServiceError :=
  match fault? input with
  | some text => some (.validation text)
  | none =>
    if t.roles.any (·.id == id) then refusal? t (some id) input
    else some (.notFound s!"role {id} not found")

open Session (ends_ask_then surely_ask_then surely_change_then surely_changeAll_then)

variable {β : Type} {env : Surroundings} {s : Session} {d d' : Desk} {t : Store.Tables}

/-! ## The changes -/

/-- What follows the replacement of the grants, which always goes through. -/
theorem surely_syncGrants_then {id : String} {input : RoleInput} (hf : fault? input = none)
    {f : Unit → Service β} {C : Except ServiceError β → Desk → Prop}
    (h : ∀ rows,
      Store.Replaced Grant.roleId Grant.menuId id (input.grantsFor id) d.tables.roleMenus rows →
      (f ()).run.Surely env s.id C { d with tables := { d.tables with roleMenus := rows } }) :
    (syncGrants s id input >>= f).run.Surely env s.id C d := by
  obtain ⟨t₁, t₂, rows, h₁, h₂, h₃, hreplaced⟩ :=
    Store.Amendable.grants.sync_sure d.tables (fun _ => owner_grantsFor) (nodup_grantsFor hf id)
  rw [syncGrants, bind_assoc, surely_ask_then]
  dsimp only
  simp only [bind_assoc]
  refine surely_changeAll_then h₁ (surely_changeAll_then h₂ (surely_changeAll_then h₃ ?_))
  exact h rows hreplaced

/-- What follows the checks of a description. -/
theorem surely_checks_then {own : Option String} {input : RoleInput} {f : Unit → Service β}
    {C : Except ServiceError β → Desk → Prop}
    (hrefused : ∀ e, refusal? d.tables own input = some e → C (.error e) d)
    (hthen : refusal? d.tables own input = none → (f ()).run.Surely env s.id C d) :
    (ensureNameFree s input.name own >>= fun _ => ensureMenusExist s input >>= f).run.Surely
      env s.id C d := by
  rw [surely_ensureNameFree_then]
  unfold refusal? at hrefused hthen
  split
  · rename_i htaken
    exact hrefused _ (if_pos htaken)
  · rename_i hfree
    rw [if_neg hfree] at hrefused hthen
    rw [surely_ensureMenusExist_then]
    split
    · rename_i missing hmissing
      rw [hmissing] at hrefused
      exact hrefused _ rfl
    · rename_i hnone
      rw [hnone] at hthen
      exact hthen rfl

/-- A description that is not refused has a name that no other role has. -/
theorem name_free {own : Option String} {input : RoleInput} (h : refusal? t own input = none) :
    (t.roles.any fun r => r.name == input.name && some r.id != own) = false := by
  unfold refusal? at h
  split at h
  · cases h
  · rename_i hfree
    exact Bool.eq_false_iff.mpr hfree

/-! ## The update -/

/-- The row of a role after an update. -/
def revised (old : Role) (input : RoleInput) (now : Timestamp) : Role :=
  { old with
    name := input.name
    sequence := input.sequence
    memo := input.memo
    updatedAt := now }

/-- A role is stored with the grants of a description, as it is answered but for the number of its
row; what menus, other roles and users own is as it was. -/
structure Saved (input : RoleInput) (t : Store.Tables) (role : Role) (t' : Store.Tables) : Prop where
  row : ∃ row, t'.roles.find? (·.id == role.id) = some row ∧
    role = { row with rowId := role.rowId, grants := input.grantsFor role.id }
  grants : Store.Replaced Grant.roleId Grant.menuId role.id (input.grantsFor role.id)
    t.roleMenus t'.roleMenus
  actions : t'.menuActions = t.menuActions
  resources : t'.menuResources = t.menuResources
  assignments : t'.userRoles = t.userRoles

/-- A stored role takes a name that no other role has. -/
theorem apply_updateRole (row : Role) {old : Role} (hold : t.roles.find? (·.id == old.id) = some old)
    (hid : row.id = old.id)
    (hfree : (t.roles.any fun r => r.name == row.name && some r.id != some old.id) = false) :
    ∃ roles, roles.find? (·.id == old.id) = some { old with
        name := row.name, sequence := row.sequence, memo := row.memo, updatedAt := row.updatedAt } ∧
      t.apply (.updateRole row) = .ok { t with roles := roles } := by
  have hname : ¬(t.roles.any fun r => r.name == row.name && r.id != row.id) = true := by
    rw [hid, Bool.not_eq_true, ← hfree]
    rfl
  have hthere : t.roles.any (·.id == row.id) = true :=
    Store.Tables.any_row.mpr ⟨old, hid ▸ Store.Tables.find_row hold⟩
  rw [Store.Tables.apply, Store.Tables.updateRole, if_neg hname]
  refine ⟨_, ?_,
    Store.Tables.bind_pure_eq_ok.mpr ⟨_, Store.Tables.amend_eq_ok.mpr ⟨hthere, rfl⟩, rfl⟩⟩
  rw [hid]
  refine (Store.Tables.find_amended Role.id (fun r => { r with
    name := row.name, sequence := row.sequence, memo := row.memo, updatedAt := row.updatedAt })
    (fun _ => rfl) old.id).trans ?_
  rw [hold]
  rfl

/-- The update in its transaction is refused for one of the reasons, or else goes through. -/
theorem surely_applyUpdate {id : String} {input : RoleInput} (hf : fault? input = none) :
    (applyUpdate s id input).run.Surely env s.id (fun r d' =>
      (∃ e, updateRefusal? d.tables id input = some e ∧ r = .error e) ∨
        updateRefusal? d.tables id input = none ∧ ∃ role, r = .ok role ∧ role.id = id ∧
          Saved input d.tables role d'.tables) d := by
  rw [applyUpdate, surely_ask_then]
  simp only [updateRefusal?, hf]
  cases hold : d.tables.ask (.getRole id) with
  | none =>
    dsimp only
    have hnone : ¬d.tables.roles.any (·.id == id) = true := by
      intro hany
      obtain ⟨x, hx, hid⟩ := Store.Tables.any_row.mp hany
      exact Store.Tables.find_row_eq_none.mp hold x hx hid
    exact .inl ⟨_, if_neg hnone, rfl⟩
  | some old =>
    dsimp only
    obtain ⟨hmem, rfl⟩ := Store.Tables.find_row hold
    rw [if_pos (Store.Tables.any_row.mpr ⟨old, hmem, rfl⟩)]
    refine surely_checks_then (fun e hrefused => .inl ⟨e, hrefused, rfl⟩) fun hnone => ?_
    refine surely_syncGrants_then hf fun grants hgrants => surely_readClock_then fun now => ?_
    obtain ⟨roles, hrow, happly⟩ := apply_updateRole (revised old input now)
      (t := { d.tables with roleMenus := grants }) hold rfl (name_free hnone)
    refine surely_change_then happly ?_
    exact .inr ⟨hnone, _, rfl, rfl, ⟨_, hrow, rfl⟩, hgrants, rfl, rfl, rfl⟩

variable (env) in
/-- An update of a role is refused for one of the reasons and changes nothing, or is a commit. -/
theorem comes_update (ctx : Context) (id : String) (input : RoleInput) :
    Comes env (update ctx id input) fun d r d' =>
      (∃ e, updateRefusal? d.tables id input = some e ∧ r = .error e ∧ d' = d) ∨
      updateRefusal? d.tables id input = none ∧ fault? input = none ∧
        Committed env (applyUpdate · id input)
          (fun s role => do
            project s role.id
            return role) d r d' := by
  unfold update validate
  cases hf : fault? input with
  | some text =>
    refine (comes_refuse (.validation text)).mono fun d r d' h => .inl ⟨_, ?_, h⟩
    simp only [updateRefusal?, hf]
  | none =>
    rw [pure_bind]
    refine (comes_commit (fun s => works_applyUpdate id input) fun s role =>
      (follows_project role.id).bind fun _ => Session.follows_pure role).mono ?_
    rintro d r d' (⟨s, e, d₁, hends, rfl, rfl⟩ | ⟨s, role, hends, hafter⟩)
    · obtain ⟨e, href, he⟩ | ⟨-, role, hok, -⟩ := (surely_applyUpdate hf).ends hends
      · exact .inl ⟨e, href, congrArg _ (Except.error.inj he), rfl⟩
      · cases hok
    · obtain ⟨e, -, he⟩ | ⟨hnone, -⟩ := (surely_applyUpdate hf).ends hends
      · cases he
      · exact .inr ⟨hnone, rfl, s, role, hends, hafter⟩

end Roles

end AccessAdmin
