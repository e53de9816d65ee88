import AccessAdmin.Proofs.Outcomes.Menus
import AccessAdmin.Proofs.Outcomes.Roles
import AccessAdmin.Proofs.Outcomes.Users

/-!
# What becomes of insertions

A row with a fresh id is stored together with what it owns: no row was there with its id, and no
owned row had it as its owner, so none of the writes is refused.

* `Store.Tables.withMenu`: the tables with one more menu.
* `Menus.surely_insert`: a menu is refused for its parent, or else stored.
* `Roles.surely_insert`, `Users.surely_insert`: a role or a user is refused for its description, or
  else stored.
-/

namespace AccessAdmin

open Service

/-- The new row is found by its id, since there was none with it. -/
theorem Store.Tables.find_new {α : Type} (idOf : α → String) {rows : List α} {x : α} {id : String}
    (hid : idOf x = id) (hfresh : ∀ r ∈ rows, idOf r ≠ id) :
    (rows ++ [x]).find? (idOf · == id) = some x := by
  rw [List.find?_append, find_row_eq_none.mpr hfresh, Option.none_or]
  exact List.find?_cons_of_pos (beq_iff_eq.mpr hid)

/-! ## Menus -/

/-- The tables with one more menu and what it owns. -/
def Store.Tables.withMenu (t : Store.Tables) (m : Menu) : Store.Tables :=
  { t with
    lastRowId := t.lastRowId + 1
    created := { t.created with menus := t.created.menus + 1 }
    menus := t.menus ++ [m.bare]
    menuActions := t.menuActions ++ m.actions
    menuResources := t.menuResources ++ m.resources }

/-- The ids of menus in the menu tables: of the menus themselves, and of the owners of actions and
resources. -/
def Store.Tables.menuIds (t : Store.Tables) : List String :=
  t.menus.map Menu.id ++ (t.menuActions.map MenuAction.menuId ++
    t.menuResources.map MenuResource.menuId)

theorem Store.Tables.not_mem_menuIds {t : Store.Tables} {id : String} : id ∉ t.menuIds ↔
    (∀ m ∈ t.menus, m.id ≠ id) ∧ (∀ a ∈ t.menuActions, a.menuId ≠ id) ∧
      ∀ x ∈ t.menuResources, x.menuId ≠ id := by
  simp only [menuIds, List.mem_append, List.mem_map, not_or, not_exists, not_and, ne_eq]

namespace Menus

open Session (surely_ask_then surely_change_then surely_changeAll_then)

variable {env : Surroundings} {s : Session} {d : Desk} {t : Store.Tables}

/-- The menu that an insertion stores. -/
def inserted (actor : String) (input : MenuInput) (id : String) (path : AncestorPath)
    (now : Timestamp) (rowId : Int) : Menu :=
  { id := id
    name := input.name
    sequence := input.sequence
    icon := input.icon
    router := input.router
    hidden := input.hidden
    parentId := input.parentId
    parentPath := path
    creator := actor
    createdAt := now
    updatedAt := now
    rowId := rowId
    actions := input.actionsFor id
    resources := input.resourcesFor id }

/-- The insertion of a menu in its transaction is refused for its parent, or else the menu is stored
with what it owns. -/
theorem surely_insert {actor : String} {input : MenuInput} (hf : fault? input.toMenuForm = none)
    (hfresh : env.idName .menu (d.tables.created.menus + 1) ∉ d.tables.menuIds) :
    (insert s actor input).run.Surely env s.id (fun r d' =>
      (∃ e, pathFor d.tables input.parentId = .error e ∧ r = .error e) ∨
        ∃ path now, pathFor d.tables input.parentId = .ok path ∧
          let m := inserted actor input (env.idName .menu (d.tables.created.menus + 1)) path now
            (d.tables.lastRowId + 1)
          r = .ok m ∧ d' = { d with tables := d.tables.withMenu m }) d := by
  rw [insert]
  refine surely_pathUnder_then (fun e hpath => .inl ⟨e, hpath, rfl⟩) fun path hpath => ?_
  refine surely_freshId_then (surely_readClock_then fun now => ?_)
  rw [show MemoryStore.createdOf d.tables .menu = d.tables.created.menus from rfl]
  generalize env.idName .menu (d.tables.created.menus + 1) = id at hfresh ⊢
  obtain ⟨hmenus, hactions, hresources⟩ := Store.Tables.not_mem_menuIds.mp hfresh
  let m := inserted actor input id path now (d.tables.lastRowId + 1)
  have hcreate : d.tables.apply (.createMenu { m with rowId := 0 }) = .ok { d.tables with
      lastRowId := d.tables.lastRowId + 1
      created := { d.tables.created with menus := d.tables.created.menus + 1 }
      menus := d.tables.menus ++ [m.bare] } := Store.Tables.createMenu_eq_ok.mpr ⟨hmenus, rfl⟩
  refine surely_change_then hcreate ?_
  dsimp only
  obtain ⟨hactionCodes, hresourceCodes⟩ := nodup_codes hf id
  refine surely_changeAll_then (Store.Amendable.actions.inserts_fresh
    (fun _ => owner_actionsFor) hactionCodes (by exact hactions)) ?_
  refine surely_changeAll_then (Store.Amendable.resources.inserts_fresh
    (fun _ => owner_resourcesFor) hresourceCodes (by exact hresources)) ?_
  refine (surely_ask_then (d := { d with tables := d.tables.withMenu m })).mpr ?_
  have hfound : (d.tables.withMenu m).ask (.getMenu id) = some m.bare :=
    Store.Tables.find_new Menu.id rfl hmenus
  simp only [hfound]
  exact .inr ⟨path, now, hpath, rfl, rfl⟩

/-- A menu that has come in with what it owns is stored as it is answered. -/
theorem saved_withMenu {form : MenuForm} {m : Menu} (hfresh : m.id ∉ t.menuIds)
    (hactions : m.actions = form.actionsFor m.id)
    (hresources : m.resources = form.resourcesFor m.id) : Saved form t m (t.withMenu m) where
  row := by
    obtain ⟨hmenus, -, -⟩ := Store.Tables.not_mem_menuIds.mp hfresh
    refine ⟨m.bare, Store.Tables.find_new Menu.id rfl hmenus, ?_⟩
    rw [← hactions, ← hresources]
    rfl
  actions := by
    obtain ⟨-, hfresh, -⟩ := Store.Tables.not_mem_menuIds.mp hfresh
    rw [← hactions]
    exact Store.replaced_append (fun _ h => owner_actionsFor (hactions ▸ h)) hfresh
  resources := by
    obtain ⟨-, -, hfresh⟩ := Store.Tables.not_mem_menuIds.mp hfresh
    rw [← hresources]
    exact Store.replaced_append (fun _ h => owner_resourcesFor (hresources ▸ h)) hfresh
  grants := rfl
  assignments := rfl

end Menus

/-! ## Roles -/

namespace Roles

open Session (surely_change_then surely_changeAll_then)

variable {env : Surroundings} {s : Session} {d : Desk} {t : Store.Tables}

/-- A role with a new id takes a name that no role has. -/
theorem apply_createRole (r : Role) (hid : ∀ x ∈ t.roles, x.id ≠ r.id)
    (hfree : (t.roles.any fun x => x.name == r.name && some x.id != none) = false) :
    t.apply (.createRole r) = .ok { t with
      lastRowId := t.lastRowId + 1
      created := { t.created with roles := t.created.roles + 1 }
      roles := t.roles ++ [{ r.bare with rowId := t.lastRowId + 1 }] } := by
  have hnew : ¬t.roles.any (·.id == r.id) = true := by
    rw [Store.Tables.any_row]
    exact fun ⟨x, hx, he⟩ => hid x hx he
  have hname : ¬t.roles.any (·.name == r.name) = true := by
    rw [Bool.not_eq_true, ← hfree]
    congr 1
    funext x
    exact (Bool.and_true _).symm
  rw [Store.Tables.apply, Store.Tables.createRole, if_neg hnew, if_neg hname]

/-- The insertion of a role in its transaction is refused for its description, or else the role is
stored with its grants. -/
theorem surely_insert {actor id : String} {input : RoleInput} (hf : fault? input = none)
    (hid : id = env.idName .role (d.tables.created.roles + 1))
    (hroles : ∀ r ∈ d.tables.roles, r.id ≠ id) (hgrants : ∀ g ∈ d.tables.roleMenus, g.roleId ≠ id) :
    (insert s actor input).run.Surely env s.id (fun r d' =>
      (∃ e, refusal? d.tables none input = some e ∧ r = .error e) ∨
        refusal? d.tables none input = none ∧ ∃ role, r = .ok role ∧ role.id = id ∧
          Saved input d.tables role d'.tables) d := by
  rw [insert]
  refine surely_checks_then (fun e hrefused => .inl ⟨e, hrefused, rfl⟩) fun hnone => ?_
  refine surely_freshId_then (surely_readClock_then fun now => ?_)
  rw [show MemoryStore.createdOf d.tables .role = d.tables.created.roles from rfl, ← hid]
  refine surely_change_then (apply_createRole _ hroles (name_free hnone)) ?_
  refine surely_changeAll_then (Store.Amendable.grants.inserts_fresh
    (fun _ => owner_grantsFor) (nodup_grantsFor hf id) (by exact hgrants)) ?_
  exact .inr ⟨hnone, _, rfl, rfl, ⟨_, Store.Tables.find_new Role.id rfl hroles, rfl⟩,
    Store.replaced_append (fun _ => owner_grantsFor) hgrants, rfl, rfl, rfl⟩

end Roles

/-! ## Users -/

namespace Users

open Session (surely_change_then surely_changeAll_then)

variable {p : UserPolicy} {env : Surroundings} {s : Session} {d : Desk} {t : Store.Tables}

/-- A user with a new id takes a username that no user has. -/
theorem apply_createUser (u : User) (hid : ∀ x ∈ t.users, x.id ≠ u.id)
    (hfree : (t.users.any fun x => x.username == u.username && some x.id != none) = false) :
    t.apply (.createUser u) = .ok { t with
      lastRowId := t.lastRowId + 1
      created := { t.created with users := t.created.users + 1 }
      users := t.users ++ [{ u.bare with rowId := t.lastRowId + 1 }] } := by
  have hnew : ¬t.users.any (·.id == u.id) = true := by
    rw [Store.Tables.any_row]
    exact fun ⟨x, hx, he⟩ => hid x hx he
  have hname : ¬t.users.any (·.username == u.username) = true := by
    rw [Bool.not_eq_true, ← hfree]
    congr 1
    funext x
    exact (Bool.and_true _).symm
  rw [Store.Tables.apply, Store.Tables.createUser, if_neg hnew, if_neg hname]

/-- The insertion of a user in its transaction is refused for its description, or else the user is
stored with its assignments. -/
theorem surely_insert {actor hash id : String} {input : UserInput} (hf : fault? p input = none)
    (hid : id = env.idName .user (d.tables.created.users + 1))
    (husers : ∀ u ∈ d.tables.users, u.id ≠ id)
    (hassignments : ∀ a ∈ d.tables.userRoles, a.userId ≠ id) :
    (insert s actor hash input).run.Surely env s.id (fun r d' =>
      (∃ e, refusal? d.tables none input = some e ∧ r = .error e) ∨
        refusal? d.tables none input = none ∧ ∃ user, r = .ok user ∧ user.id = id ∧
          Saved input d.tables user d'.tables) d := by
  rw [insert]
  refine surely_checks_then (fun e hrefused => .inl ⟨e, hrefused, rfl⟩) fun hnone => ?_
  refine surely_freshId_then (surely_readClock_then fun now => ?_)
  rw [show MemoryStore.createdOf d.tables .user = d.tables.created.users from rfl, ← hid]
  refine surely_change_then (apply_createUser _ husers (username_free hnone)) ?_
  refine surely_changeAll_then (Store.Column.assignments.inserts_fresh
    (fun _ => owner_assignmentsFor) (nodup_assignmentsFor hf id) (by exact hassignments)) ?_
  exact .inr ⟨hnone, _, rfl, rfl, ⟨_, Store.Tables.find_new User.id rfl husers, rfl⟩,
    Store.replaced_append (fun _ => owner_assignmentsFor) hassignments, rfl, rfl, rfl⟩

end Users

end AccessAdmin
