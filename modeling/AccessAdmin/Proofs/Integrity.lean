import AccessAdmin.Proofs.Changes.Keys
import AccessAdmin.Proofs.Sequences

/-!
# Relational integrity

The tables declare no keys and no references, so everything that a schema would enforce rests on
what the services do: each checks what it writes, and each deletion clears away what refers to the
deleted row.

* `Store.Tables.Owned`: what a menu owns belongs to a stored one.
* `Store.Tables.Integral`: keys, validity and references of all tables.
* `Reached.integral`: sequences of commands lead to such tables only, disturbed or not.
-/

namespace AccessAdmin

/-! ## What menus own -/

/-- Every action and every resource belongs to a stored menu. -/
structure Store.Tables.Owned (t : Store.Tables) : Prop where
  actions : ∀ a ∈ t.menuActions, a.menuId ∈ t.menus.map Menu.id
  resources : ∀ r ∈ t.menuResources, r.menuId ∈ t.menus.map Menu.id

section Owned

variable {env : Surroundings} {t t' : Store.Tables}

theorem Store.Tables.owned_empty : Owned {} where
  actions _ h := nomatch h
  resources _ h := nomatch h

/-- Changes that have to do with neither menus nor what they own. -/
theorem Store.Tables.Owned.frame (h : t.Owned) (hmenus : t'.menus = t.menus)
    (hactions : t'.menuActions = t.menuActions) (hresources : t'.menuResources = t.menuResources) :
    t'.Owned :=
  ⟨by rw [hmenus, hactions]; exact h.actions, by rw [hmenus, hresources]; exact h.resources⟩

theorem Menus.Added.owned {input : MenuInput} {row : Menu} (h : t.Owned)
    (ha : Added env input t row t') : t'.Owned := by
  rw [ha.tables]
  constructor
  · intro a hmem
    rw [List.map_append]
    rcases List.mem_append.mp hmem with hmem | hmem
    · exact List.mem_append_left _ (h.actions a hmem)
    · obtain ⟨_, _, rfl⟩ := List.mem_map.mp hmem
      exact List.mem_append_right _ (.head _)
  · intro r hmem
    rw [List.map_append]
    rcases List.mem_append.mp hmem with hmem | hmem
    · exact List.mem_append_left _ (h.resources r hmem)
    · obtain ⟨_, _, rfl⟩ := List.mem_map.mp hmem
      exact List.mem_append_right _ (.head _)

theorem Menus.Grown.owned (h : t.Owned) (hg : Grown env t t') : t'.Owned := by
  induction hg with
  | refl => exact h
  | tail _ hstep ih =>
    obtain ⟨_, _, -, hadded⟩ := hstep
    exact hadded.owned ih

theorem Menus.Updated.owned {id : String} {input : MenuInput} {old row : Menu} (h : t.Owned)
    (hu : Updated id input old row t t') : t'.Owned := by
  have hstored : id ∈ t.menus.map Menu.id := hu.old_id ▸ List.mem_map_of_mem hu.old_mem
  constructor
  · intro a ha
    rw [hu.menu_ids]
    rcases hu.actions.mem_or a ha with ha | ha
    · exact h.actions a ha
    · obtain ⟨_, _, rfl⟩ := List.mem_map.mp ha
      exact hstored
  · intro r hr
    rw [hu.menu_ids]
    rcases hu.resources.mem_or r hr with hr | hr
    · exact h.resources r hr
    · obtain ⟨_, _, rfl⟩ := List.mem_map.mp hr
      exact hstored

/-- A removed menu takes with it what it owned. -/
theorem Menus.Removed.owned {id : String} (h : t.Owned) (hr : Removed id t t') : t'.Owned := by
  rw [hr.tables]
  constructor
  · intro a ha
    obtain ⟨ha, hne⟩ := List.mem_filter.mp ha
    exact mem_map_filter_ne (h.actions a ha) (bne_iff_ne.mp hne)
  · intro r hmem
    obtain ⟨hmem, hne⟩ := List.mem_filter.mp hmem
    exact mem_map_filter_ne (h.resources r hmem) (bne_iff_ne.mp hne)

theorem Mutation.Changes.owned {m : Mutation} {a : m.Result} (h : t.Owned)
    (hc : m.Changes env t a t') : t'.Owned := by
  cases m with
  | createMenu _ =>
    obtain ⟨_, ha⟩ := hc
    exact ha.owned h
  | updateMenu _ _ =>
    obtain ⟨_, _, hu⟩ := hc
    exact hu.owned h
  | deleteMenu _ => exact Menus.Removed.owned h hc
  | seedMenus _ => exact Menus.Grown.owned h hc
  | createRole _ | createUser _ =>
    obtain ⟨_, ha, -⟩ := hc
    rw [ha.tables]
    exact h.frame rfl rfl rfl
  | updateRole _ _ | updateUser _ _ =>
    rw [hc.frame]
    exact h.frame rfl rfl rfl
  | deleteRole _ | deleteUser _ =>
    rw [hc.tables]
    exact h.frame rfl rfl rfl
  | updateStatus _ _ =>
    obtain ⟨-, rfl⟩ := hc
    exact h.frame rfl rfl rfl
  | updatePassword _ _ | changeOwnPassword _ _ _ =>
    obtain ⟨_, -, rfl⟩ := hc
    exact h.frame rfl rfl rfl

/-- Sequences of commands leave no action and no resource behind. -/
theorem Reached.owned {admits : Command → Prop} {used : List String} {w : World MemoryStore}
    (h : Reached admits used w) : w.tables.Owned :=
  h.invariant Store.Tables.owned_empty fun _ hchanges howned => hchanges.owned howned

end Owned

/-! ## All tables -/

/-- Everything a schema would enforce: the keys of all tables are distinct and their rows valid, the
actions and resources belong to stored menus, the grants to stored roles, and the assignments name
stored users and stored roles. -/
structure Store.Tables.Integral (root : String) (t : Store.Tables) : Prop where
  keyed : t.Keyed root
  owned : t.Owned
  granted : ∀ g ∈ t.roleMenus, g.roleId ∈ t.roles.map Role.id
  assigned : ∀ a ∈ t.userRoles, a.userId ∈ t.users.map User.id ∧ a.roleId ∈ t.roles.map Role.id

/-- Whatever sequence of commands has been served, refused or disturbed, the tables are integral. -/
theorem Reached.integral {root : String} {admits : Command → Prop}
    (hroot : ∀ q, admits q → q.users.rootUsername = root) {used : List String}
    {w : World MemoryStore} (h : Reached admits used w) : w.tables.Integral root where
  keyed := h.keyed hroot
  owned := h.owned
  granted g hg := (h.sound.granted g hg).1
  assigned := h.sound.assigned

theorem sample_integral : (∀ q : Command, q.users.rootUsername = "root" →
      q.users.rootUsername = "root") ∧
    (∃ used, Reached (fun q => q.users.rootUsername = "root") used Sample.world) ∧
    Sample.world.tables.userRoles = [⟨"ux", "rx"⟩] ∧ Sample.world.tables.Integral "root" := by
  have hstart : Reached (fun q => q.users.rootUsername = "root") [] { store := {} } :=
    .start rfl rfl
  have hcommands : ∀ q ∈ Sample.commands,
      q.users.rootUsername = "root" ∧ q.env.idName = Sample.naming.name := by
    intro q hq
    obtain ⟨m, _, rfl⟩ := List.mem_map.mp hq
    exact ⟨rfl, rfl⟩
  obtain ⟨used, hreached, -⟩ := reached_serveAll hstart (fun _ h => nomatch h) hcommands
  exact ⟨fun _ h => h, ⟨used, hreached⟩, by decide +kernel, hreached.integral fun _ h => h⟩

end AccessAdmin
