import AccessAdmin.Proofs.Changes.Writes

/-!
# Distinct keys and valid rows

No table holds two rows with one key, and every row is as the checks of the services want it. A
table is changed by adding a row, by amending those that are met, or by dropping some, and each of
the three has one lemma here; then a table has one case for each change of it.

* `Store.KeyedBy`: rows with distinct keys, each of them valid.
* `Store.Tables.apply_frame`: a change leaves all tables but one alone.
* `Store.Tables.Keyed`: the keys and the validity of all tables, which proper changes keep.
* `Store.Tables.Distinct`: the keys of what menus, roles and users own, which every change keeps.
-/

namespace AccessAdmin

namespace Store

/-! ## Rows with keys -/

/-- Rows whose keys are distinct, each of them valid. -/
structure KeyedBy {α κ : Type} (key : α → κ) (valid : α → Prop) (rows : List α) : Prop where
  distinct : (rows.map key).Nodup
  valid : ∀ x ∈ rows, valid x

namespace KeyedBy

variable {α κ : Type} {key : α → κ} {valid : α → Prop} {rows : List α}

theorem nil : KeyedBy key valid [] := ⟨List.nodup_nil, fun _ h => nomatch h⟩

theorem filter (h : KeyedBy key valid rows) (p : α → Bool) : KeyedBy key valid (rows.filter p) where
  distinct := h.distinct.sublist (List.filter_sublist.map key)
  valid x hx := h.valid x (List.mem_filter.mp hx).1

/-- A row with a new key. -/
theorem insert (h : KeyedBy key valid rows) {x : α} (hnew : ∀ r ∈ rows, key r ≠ key x)
    (hx : valid x) : KeyedBy key valid (rows ++ [x]) where
  distinct := by
    rw [List.map_append, List.map_cons, List.map_nil, ← List.concat_eq_append]
    refine List.Nodup.concat (fun hmem => ?_) h.distinct
    obtain ⟨r, hr, he⟩ := List.mem_map.mp hmem
    exact hnew r hr he
  valid r hr := by
    rcases List.mem_append.mp hr with hr | hr
    · exact h.valid r hr
    · exact List.mem_singleton.mp hr ▸ hx

/-- Rows that keep their keys. -/
theorem amend (h : KeyedBy key valid rows) {f : α → α} (hkey : ∀ x, key (f x) = key x)
    (hvalid : ∀ x ∈ rows, valid (f x)) : KeyedBy key valid (rows.map f) where
  distinct := by
    rw [List.map_map, show key ∘ f = key from funext hkey]
    exact h.distinct
  valid r hr := by
    obtain ⟨x, hx, rfl⟩ := List.mem_map.mp hr
    exact hvalid x hx

/-- The row with an id gets a key that no other row has. -/
theorem rekey {ι : Type} [DecidableEq ι] {idOf : α → ι} {id : ι} {k : κ} {f : α → α}
    (h : KeyedBy key valid rows) (hids : (rows.map idOf).Nodup)
    (hfree : ∀ r ∈ rows, idOf r ≠ id → key r ≠ k) (hkey : ∀ x, key (f x) = k)
    (hvalid : ∀ x, valid (f x)) :
    KeyedBy key valid (rows.map fun r => if idOf r = id then f r else r) where
  distinct := by
    rw [List.map_map]
    refine List.Nodup.map_on (fun x hx y hy he => ?_) (List.Nodup.of_map _ hids)
    rw [Function.comp_apply, Function.comp_apply] at he
    split at he
    · rename_i hxid
      split at he
      · rename_i hyid
        exact List.inj_on_of_nodup_map hids hx hy (hxid.trans hyid.symm)
      · rename_i hyid
        exact (hfree y hy hyid (he.symm.trans (hkey x))).elim
    · rename_i hxid
      split at he
      · exact (hfree x hx hxid (he.trans (hkey y))).elim
      · exact List.inj_on_of_nodup_map h.distinct hx hy he
  valid r hr := by
    obtain ⟨x, hx, rfl⟩ := List.mem_map.mp hr
    split
    · exact hvalid x
    · exact h.valid x hx

end KeyedBy

/-! ## Tables -/

/-- The tables of a store. -/
inductive Table where
  | menus
  | actions
  | resources
  | roles
  | grants
  | users
  | assignments
deriving DecidableEq, Repr

/-- The table that a change is about. -/
def Write.table : Write → Table
  | createMenu _ | updateMenu _ | updateMenuParentPath _ _ | deleteMenu _ => .menus
  | createMenuAction _ | updateMenuAction _ | deleteMenuAction _ _ | deleteMenuActions _ => .actions
  | createMenuResource _ | updateMenuResource _ | deleteMenuResource _ _
  | deleteMenuResources _ => .resources
  | createRole _ | updateRole _ | deleteRole _ => .roles
  | createRoleMenu _ | updateRoleMenu _ | deleteRoleMenu _ _ | deleteRoleMenus _ => .grants
  | createUser _ | updateUser _ | updateUserStatus _ _ | updateUserPassword _ _
  | deleteUser _ => .users
  | createUserRole _ | deleteUserRole _ _ | deleteUserRoles _ | deleteRoleUsers _ => .assignments

namespace Tables

variable {t t' : Tables} {w : Write} {root : String}

/-- A change leaves the rows of all tables alone but those of the one it is about. -/
structure Framed (table : Table) (t t' : Tables) : Prop where
  menus : table ≠ .menus → t'.menus = t.menus
  actions : table ≠ .actions → t'.menuActions = t.menuActions
  resources : table ≠ .resources → t'.menuResources = t.menuResources
  roles : table ≠ .roles → t'.roles = t.roles
  grants : table ≠ .grants → t'.roleMenus = t.roleMenus
  users : table ≠ .users → t'.users = t.users
  assignments : table ≠ .assignments → t'.userRoles = t.userRoles

theorem apply_frame (h : t.apply w = .ok t') : t.Framed w.table t' := by
  cases w with
  | createMenu m =>
    obtain ⟨-, rfl⟩ := createMenu_eq_ok.mp h
    constructor <;> intro hne <;> first | rfl | exact absurd rfl hne
  | createRole r =>
    obtain ⟨-, -, rfl⟩ := createRole_eq_ok.mp h
    constructor <;> intro hne <;> first | rfl | exact absurd rfl hne
  | updateRole r =>
    obtain ⟨-, _, -, rfl⟩ := updateRole_eq_ok.mp h
    constructor <;> intro hne <;> first | rfl | exact absurd rfl hne
  | createUser u =>
    obtain ⟨-, -, rfl⟩ := createUser_eq_ok.mp h
    constructor <;> intro hne <;> first | rfl | exact absurd rfl hne
  | updateUser u =>
    obtain ⟨-, _, -, rfl⟩ := updateUser_eq_ok.mp h
    constructor <;> intro hne <;> first | rfl | exact absurd rfl hne
  | updateUserStatus _ _ | updateUserPassword _ _ =>
    obtain ⟨-, rfl⟩ := Users.amendUser_eq h
    constructor <;> intro hne <;> first | rfl | exact absurd rfl hne
  | updateMenu _ | updateMenuParentPath _ _ | createMenuAction _ | updateMenuAction _
  | createMenuResource _ | updateMenuResource _ | createRoleMenu _ | updateRoleMenu _
  | createUserRole _ =>
    obtain ⟨_, -, rfl⟩ := bind_pure_eq_ok.mp h
    constructor <;> intro hne <;> first | rfl | exact absurd rfl hne
  | deleteMenu _ | deleteMenuAction _ _ | deleteMenuActions _ | deleteMenuResource _ _
  | deleteMenuResources _ | deleteRole _ | deleteRoleMenu _ _ | deleteRoleMenus _ | deleteUser _
  | deleteUserRole _ _ | deleteUserRoles _ | deleteRoleUsers _ =>
    obtain rfl := Except.ok.inj h
    constructor <;> intro hne <;> first | rfl | exact absurd rfl hne

/-! ## All tables -/

/-- The rows of every table have distinct keys, and are valid: roles and users are named, no user by
the reserved name, and codes can be stored. -/
structure Keyed (root : String) (t : Tables) : Prop where
  roleIds : (t.roles.map Role.id).Nodup
  roles : KeyedBy Role.name (fun r => Text.isAllBlank r.name = false) t.roles
  userIds : (t.users.map User.id).Nodup
  users : KeyedBy User.username
    (fun u => Text.isAllBlank u.username = false ∧ u.username ≠ root) t.users
  actions : KeyedBy (fun a => (a.menuId, a.code)) (fun a => Code.isStorable a.code = true)
    t.menuActions
  resources : KeyedBy (fun r => (r.menuId, r.code)) (fun r => Code.isStorable r.code = true)
    t.menuResources
  grants : KeyedBy (fun g => (g.roleId, g.menuId))
    (fun g => ∀ c ∈ g.actions ++ g.resources, Code.isStorable c = true) t.roleMenus
  assignments : t.userRoles.Nodup

theorem keyed_empty : Keyed root {} :=
  ⟨List.nodup_nil, .nil, List.nodup_nil, .nil, .nil, .nil, .nil, List.nodup_nil⟩

/-- Rows that a table with two-part keys accepts. -/
theorem keyedBy_insertNew {α : Type} {rows rows' : List α} {owner part : α → String} {x : α}
    {valid : α → Prop} {what : String} (h : KeyedBy (fun r => (owner r, part r)) valid rows)
    (hx : valid x)
    (hrows : insertNew rows (fun r => owner r == owner x && part r == part x) x what = .ok rows') :
    KeyedBy (fun r => (owner r, part r)) valid rows' := by
  obtain ⟨hnew, rfl⟩ := insertNew_eq_ok.mp hrows
  refine h.insert (fun r hr he => ?_) hx
  obtain ⟨howner, hpart⟩ := Prod.mk.inj he
  have := List.any_eq_false.mp hnew r hr
  rw [howner, hpart, BEq.rfl, BEq.rfl] at this
  exact this rfl

/-- Rows of a table that is amended in parts that are no part of the key. -/
theorem keyedBy_amend {α κ : Type} {rows rows' : List α} {key : α → κ} {valid : α → Prop}
    {hit : α → Bool} {f : α → α} {what : String} (h : KeyedBy key valid rows)
    (hrows : amend rows hit f what = .ok rows') (hkey : ∀ x, key (f x) = key x)
    (hvalid : ∀ x, valid x → valid (f x)) : KeyedBy key valid rows' := by
  obtain ⟨-, rfl⟩ := amend_eq_ok.mp hrows
  refine h.amend (fun x => ?_) fun x hx => ?_
  · split
    · exact hkey x
    · rfl
  · split
    · exact hvalid x (h.valid x hx)
    · exact h.valid x hx

/-- Rows of a table whose first row with a key is amended so. -/
theorem keyedBy_amendFirst {α κ : Type} {rows rows' : List α} {key : α → κ} {valid : α → Prop}
    {hit : α → Bool} {f : α → α} {what : String} (h : KeyedBy key valid rows)
    (hrows : amendFirst rows hit f what = .ok rows') (hkey : ∀ x, key (f x) = key x)
    (hvalid : ∀ x, valid x → valid (f x)) : KeyedBy key valid rows' := by
  obtain ⟨-, rfl⟩ := amendFirst_eq_ok.mp hrows
  refine ⟨?_, fun r hr => ?_⟩
  · rw [map_modify_first fun x _ => hkey x]
    exact h.distinct
  · rcases mem_modify_first hr with hr | ⟨x, hx, -, rfl⟩
    · exact h.valid r hr
    · exact hvalid x (h.valid x hx)

namespace Keyed

/-- Ids that stay distinct when a row with a new one is added. -/
theorem ids_concat {α : Type} {rows : List α} {idOf : α → String} {x : α}
    (h : (rows.map idOf).Nodup) (hnew : ∀ r ∈ rows, idOf r ≠ idOf x) :
    ((rows ++ [x]).map idOf).Nodup :=
  have hany : KeyedBy idOf (fun _ => True) rows := ⟨h, fun _ _ => trivial⟩
  (hany.insert hnew trivial).distinct

/-- Ids that changes of the rows leave as they are. -/
theorem ids_amend {α : Type} {rows rows' : List α} {idOf : α → String} {hit : α → Bool} {f : α → α}
    {what : String} (h : (rows.map idOf).Nodup) (hrows : amend rows hit f what = .ok rows')
    (hid : ∀ x, idOf (f x) = idOf x) : (rows'.map idOf).Nodup := by
  rw [map_amend hrows hid]
  exact h

theorem roles_apply (ht : t.Keyed root) (h : t.apply w = .ok t') (hw : w.Proper root) :
    (t'.roles.map Role.id).Nodup ∧
      KeyedBy Role.name (fun r => Text.isAllBlank r.name = false) t'.roles := by
  cases w with
  | createRole r =>
    obtain ⟨hid, hname, rfl⟩ := createRole_eq_ok.mp h
    exact ⟨ids_concat ht.roleIds hid, ht.roles.insert hname hw⟩
  | updateRole r =>
    obtain ⟨hfree, roles, hroles, rfl⟩ := updateRole_eq_ok.mp h
    refine ⟨ids_amend ht.roleIds hroles fun _ => rfl, ?_⟩
    obtain ⟨-, rfl⟩ := amend_eq_ok.mp hroles
    simp only [beq_iff_eq]
    exact ht.roles.rekey ht.roleIds hfree (fun _ => rfl) fun _ => hw
  | deleteRole id =>
    obtain rfl := Except.ok.inj h
    exact ⟨ht.roleIds.sublist (List.filter_sublist.map _), ht.roles.filter _⟩
  | _ =>
    rw [(apply_frame h).roles (by rintro ⟨⟩)]
    exact ⟨ht.roleIds, ht.roles⟩

theorem users_apply (ht : t.Keyed root) (h : t.apply w = .ok t') (hw : w.Proper root) :
    (t'.users.map User.id).Nodup ∧ KeyedBy User.username
      (fun u => Text.isAllBlank u.username = false ∧ u.username ≠ root) t'.users := by
  cases w with
  | createUser u =>
    obtain ⟨hid, hname, rfl⟩ := createUser_eq_ok.mp h
    exact ⟨ids_concat ht.userIds hid, ht.users.insert hname hw⟩
  | updateUser u =>
    obtain ⟨hfree, users, husers, rfl⟩ := updateUser_eq_ok.mp h
    refine ⟨ids_amend ht.userIds husers fun _ => rfl, ?_⟩
    obtain ⟨-, rfl⟩ := amend_eq_ok.mp husers
    simp only [beq_iff_eq]
    exact ht.users.rekey ht.userIds hfree (fun _ => rfl) fun _ => hw
  | updateUserStatus id status | updateUserPassword id hash =>
    obtain ⟨users, husers, rfl⟩ := bind_pure_eq_ok.mp h
    exact ⟨ids_amend ht.userIds husers fun _ => rfl,
      keyedBy_amend ht.users husers (fun _ => rfl) fun _ h => h⟩
  | deleteUser id =>
    obtain rfl := Except.ok.inj h
    exact ⟨ht.userIds.sublist (List.filter_sublist.map _), ht.users.filter _⟩
  | _ =>
    rw [(apply_frame h).users (by rintro ⟨⟩)]
    exact ⟨ht.userIds, ht.users⟩

/-- Actions with distinct keys, all of a kind that new ones are of and new names leave. -/
theorem actions_apply {valid : MenuAction → Prop}
    (ht : KeyedBy (fun a => (a.menuId, a.code)) valid t.menuActions) (h : t.apply w = .ok t')
    (hcreate : ∀ a, w = .createMenuAction a → valid a)
    (hupdate : ∀ a x, valid x → valid { x with name := a }) :
    KeyedBy (fun a => (a.menuId, a.code)) valid t'.menuActions := by
  cases w with
  | createMenuAction a =>
    obtain ⟨rows, hrows, rfl⟩ := bind_pure_eq_ok.mp h
    exact keyedBy_insertNew ht (hcreate a rfl) hrows
  | updateMenuAction a =>
    obtain ⟨rows, hrows, rfl⟩ := bind_pure_eq_ok.mp h
    exact keyedBy_amendFirst ht hrows (fun _ => rfl) (hupdate a.name)
  | deleteMenuAction _ _ | deleteMenuActions _ =>
    obtain rfl := Except.ok.inj h
    exact ht.filter _
  | _ =>
    rw [(apply_frame h).actions (by rintro ⟨⟩)]
    exact ht

theorem resources_apply {valid : MenuResource → Prop}
    (ht : KeyedBy (fun r => (r.menuId, r.code)) valid t.menuResources) (h : t.apply w = .ok t')
    (hcreate : ∀ r, w = .createMenuResource r → valid r)
    (hupdate : ∀ r x : MenuResource, valid x →
      valid { x with name := r.name, method := r.method, path := r.path }) :
    KeyedBy (fun r => (r.menuId, r.code)) valid t'.menuResources := by
  cases w with
  | createMenuResource r =>
    obtain ⟨rows, hrows, rfl⟩ := bind_pure_eq_ok.mp h
    exact keyedBy_insertNew ht (hcreate r rfl) hrows
  | updateMenuResource r =>
    obtain ⟨rows, hrows, rfl⟩ := bind_pure_eq_ok.mp h
    exact keyedBy_amendFirst ht hrows (fun _ => rfl) (hupdate r)
  | deleteMenuResource _ _ | deleteMenuResources _ =>
    obtain rfl := Except.ok.inj h
    exact ht.filter _
  | _ =>
    rw [(apply_frame h).resources (by rintro ⟨⟩)]
    exact ht

theorem grants_apply {valid : Grant → Prop}
    (ht : KeyedBy (fun g => (g.roleId, g.menuId)) valid t.roleMenus) (h : t.apply w = .ok t')
    (hcreate : ∀ g, w = .createRoleMenu g → valid g)
    (hupdate : ∀ g, w = .updateRoleMenu g → ∀ x, valid x →
      valid { x with actions := g.actions, resources := g.resources }) :
    KeyedBy (fun g => (g.roleId, g.menuId)) valid t'.roleMenus := by
  cases w with
  | createRoleMenu g =>
    obtain ⟨rows, hrows, rfl⟩ := bind_pure_eq_ok.mp h
    exact keyedBy_insertNew ht (hcreate g rfl) hrows
  | updateRoleMenu g =>
    obtain ⟨rows, hrows, rfl⟩ := bind_pure_eq_ok.mp h
    exact keyedBy_amendFirst ht hrows (fun _ => rfl) (hupdate g rfl)
  | deleteRoleMenu _ _ | deleteRoleMenus _ =>
    obtain rfl := Except.ok.inj h
    exact ht.filter _
  | _ =>
    rw [(apply_frame h).grants (by rintro ⟨⟩)]
    exact ht

/-- Proper changes keep the rows of all tables keyed. -/
theorem apply (ht : t.Keyed root) (h : t.apply w = .ok t') (hw : w.Proper root) :
    t'.Keyed root where
  roleIds := (ht.roles_apply h hw).1
  roles := (ht.roles_apply h hw).2
  userIds := (ht.users_apply h hw).1
  users := (ht.users_apply h hw).2
  actions := actions_apply ht.actions h (by rintro a rfl; exact hw) fun _ _ hx => hx
  resources := resources_apply ht.resources h (by rintro r rfl; exact hw) fun _ _ hx => hx
  grants := grants_apply ht.grants h (by rintro g rfl; exact hw) (by rintro g rfl _ _; exact hw)
  assignments := lasting_assignments t w t' h ht.assignments

end Keyed

end Tables

end Store

/-! ## What menus, roles and users own -/

/-- No owner has two rows with one key, whatever the rows are otherwise. -/
structure Store.Tables.Distinct (t : Store.Tables) : Prop where
  actions : (t.menuActions.map fun a => (a.menuId, a.code)).Nodup
  resources : (t.menuResources.map fun r => (r.menuId, r.code)).Nodup
  grants : (t.roleMenus.map fun g => (g.roleId, g.menuId)).Nodup
  assignments : (t.userRoles.map fun a => (a.userId, a.roleId)).Nodup

open Store.Tables.Keyed in
theorem Store.Tables.lasting_distinct : Lasting Distinct := by
  intro t w t' h ht
  have hall {α κ : Type} {key : α → κ} {rows : List α} (hkeys : (rows.map key).Nodup) :
      KeyedBy key (fun _ => True) rows := ⟨hkeys, fun _ _ => trivial⟩
  exact
    { actions := (actions_apply (hall ht.actions) h (fun _ _ => trivial) fun _ _ h => h).distinct
      resources :=
        (resources_apply (hall ht.resources) h (fun _ _ => trivial) fun _ _ h => h).distinct
      grants :=
        (grants_apply (hall ht.grants) h (fun _ _ => trivial) fun _ _ _ h => h).distinct
      assignments := (lasting_assignments t w t' h (.of_map _ ht.assignments)).map
        fun _ _ he => (Assignment.mk.injEq ..).mpr (Prod.mk.inj he) }

theorem Reached.distinct {admits : Command → Prop} {used : List String} {w : World MemoryStore}
    (h : Reached admits used w) : w.tables.Distinct :=
  h.lasting Store.Tables.lasting_distinct
    ⟨List.nodup_nil, List.nodup_nil, List.nodup_nil, List.nodup_nil⟩

/-! ## Reached tables -/

/-- Sequences of commands that agree on the reserved username lead to keyed tables only. -/
theorem Reached.keyed {root : String} {admits : Command → Prop}
    (hroot : ∀ q, admits q → q.users.rootUsername = root) {used : List String}
    {w : World MemoryStore} (h : Reached admits used w) : w.tables.Keyed root :=
  h.kept (fun _ _ _ happly hw ht => ht.apply happly hw) Store.Tables.keyed_empty hroot

end AccessAdmin
