import Mathlib.Data.List.Find
import AccessAdmin.Proofs.Changes.Menus
import AccessAdmin.Proofs.Running.Surely

/-!
# What role mutations change

The work of a role mutation that succeeds, told by the tables before and after it.

* `Roles.Added`: a role is inserted with its grants.
* `Roles.Updated`: a role is updated and its grants are replaced.
* `Roles.Removed`: a role is removed with its grants and every assignment of it.
-/

namespace AccessAdmin

theorem found_of_find?_eq_none {ids : List String} {α : Type} {found : List α} {idOf : α → String}
    (h : ids.find? (fun id => !found.any (idOf · == id)) = none) :
    ∀ id ∈ ids, ∃ x ∈ found, idOf x = id := by
  intro id hid
  have := List.find?_eq_none.1 h id hid
  simp only [Bool.not_eq_true', Bool.not_eq_false, List.any_eq_true, beq_iff_eq] at this
  exact this

namespace Roles

open Service
open Store.Tables (find_row)
open Session (ends_ask_then ends_change_then ends_changeAll_then surely_ask_then)

variable {β : Type} {env : Surroundings} {s : Session} {d d' : Desk} {t t' : Store.Tables}

/-! ## The checks -/

theorem any_named (t : Store.Tables) (name : String) (own : Option String) :
    ((t.matchingRoles (.named name)).any fun r => some r.id != own) =
      t.roles.any fun r => r.name == name && some r.id != own := by
  rw [Bool.eq_iff_iff, List.any_eq_true, List.any_eq_true]
  simp only [Store.Tables.matchingRoles, List.mem_mergeSort, List.mem_filter, RoleFilter.admits,
    RoleFilter.named, Option.all_none, Option.all_some, Bool.and_true, Bool.true_and,
    Bool.and_eq_true, and_assoc]

/-- What follows the check of the name. -/
theorem surely_ensureNameFree_then {name : String} {own : Option String} {f : Unit → Service β}
    {C : Except ServiceError β → Desk → Prop} :
    (ensureNameFree s name own >>= f).run.Surely env s.id C d ↔
      if d.tables.roles.any fun r => r.name == name && some r.id != own then
        C (.error (.validation s!"role name {name} already exists")) d
      else (f ()).run.Surely env s.id C d := by
  rw [ensureNameFree, bind_assoc, surely_ask_then, ← any_named]
  show ((if (d.tables.matchingRoles (.named name)).any (fun r => some r.id != own) then
    Service.refuse _ else pure ()) >>= f).run.Surely env s.id C d ↔ _
  cases (d.tables.matchingRoles (.named name)).any fun r => some r.id != own with
  | true => rfl
  | false => rfl

variable (env) in
/-- What follows a look for the menus with some ids. -/
theorem surely_withIds_then (s : Session) (d : Desk) (ids : List String) :
    ∃ found : List Menu,
      (∀ id ∈ ids, found.any (·.id == id) = d.tables.menus.any (·.id == id)) ∧
      ∀ {β : Type} {f : List Menu → Service β} {C},
        (Menus.withIds s ids >>= f).run.Surely env s.id C d ↔
          (f found).run.Surely env s.id C d := by
  by_cases hids : ids.isEmpty = true
  · rw [List.isEmpty_iff] at hids
    subst hids
    exact ⟨[], (fun _ h => nomatch h), Iff.rfl⟩
  · refine ⟨d.tables.matchingMenus (.withIds ids), fun id hid => ?_, ?_⟩
    · rw [Bool.eq_iff_iff, List.any_eq_true, List.any_eq_true]
      constructor
      · rintro ⟨m, hm, hmid⟩
        exact ⟨m, (Menus.mem_matchingMenus.mp hm).1, hmid⟩
      · rintro ⟨m, hm, hmid⟩
        refine ⟨m, Menus.mem_matchingMenus.mpr ⟨hm, ?_⟩, hmid⟩
        simp only [MenuFilter.admits, MenuFilter.withIds, Option.all_some, Option.all_none,
          Bool.and_true, List.contains_iff_mem]
        exact beq_iff_eq.mp hmid ▸ hid
    · intro β f C
      rw [Menus.withIds, if_neg hids, bind_assoc, surely_ask_then, pure_bind]
      rfl

/-- What follows the check of the granted menus. -/
theorem surely_ensureMenusExist_then {input : RoleInput} {f : Unit → Service β}
    {C : Except ServiceError β → Desk → Prop} :
    (ensureMenusExist s input >>= f).run.Surely env s.id C d ↔
      match (input.grants.map GrantInput.menuId).find? fun id =>
          !d.tables.menus.any (·.id == id) with
      | some id => C (.error (.notFound s!"menu {id} not found")) d
      | none => (f ()).run.Surely env s.id C d := by
  obtain ⟨found, hfound, hthen⟩ :=
    surely_withIds_then env s d (input.grants.map GrantInput.menuId)
  rw [ensureMenusExist, bind_assoc, hthen, List.find?_congr fun id hid => by rw [hfound id hid]]
  cases (input.grants.map GrantInput.menuId).find? fun id => !d.tables.menus.any (·.id == id) with
  | some id => rfl
  | none => rfl

theorem ends_ensureNameFree {name : String} {own : Option String} {u : Unit}
    (h : (ensureNameFree s name own).run.Ends env s.id d (.ok u) d') :
    d' = d ∧ ∀ r ∈ d.tables.roles, r.name = name → some r.id = own := by
  have hsure : (ensureNameFree s name own).run.Surely env s.id (fun a d' => a = .ok u →
      d' = d ∧ ∀ r ∈ d.tables.roles, r.name = name → some r.id = own) d := by
    rw [← bind_pure (ensureNameFree s name own), surely_ensureNameFree_then]
    split
    · exact fun he => nomatch he
    · rename_i hnone
      refine fun _ => ⟨rfl, fun r hr hname => by_contra fun hne => hnone ?_⟩
      refine List.any_eq_true.2 ⟨r, hr, ?_⟩
      rw [hname, BEq.rfl, Bool.true_and]
      exact bne_iff_ne.2 hne
  exact hsure.ends h rfl

theorem ends_ensureMenusExist {input : RoleInput} {u : Unit}
    (h : (ensureMenusExist s input).run.Ends env s.id d (.ok u) d') :
    d' = d ∧ ∀ g ∈ input.grants, ∃ m ∈ d.tables.menus, m.id = g.menuId := by
  have hsure : (ensureMenusExist s input).run.Surely env s.id (fun a d' => a = .ok u →
      d' = d ∧ ∀ g ∈ input.grants, ∃ m ∈ d.tables.menus, m.id = g.menuId) d := by
    rw [← bind_pure (ensureMenusExist s input), surely_ensureMenusExist_then]
    split
    · exact fun he => nomatch he
    · rename_i hnone
      exact fun _ => ⟨rfl, fun g hg =>
        found_of_find?_eq_none hnone g.menuId (List.mem_map_of_mem hg)⟩
  exact hsure.ends h rfl

/-! ## Insertions -/

/-- A role is inserted with its grants. -/
structure Added (env : Surroundings) (input : RoleInput) (t : Store.Tables) (row : Role)
    (t' : Store.Tables) : Prop where
  id : row.id = env.idName .role (t.created.roles + 1)
  fresh : ∀ r ∈ t.roles, r.id ≠ row.id
  granted : ∀ g ∈ input.grants, ∃ m ∈ t.menus, m.id = g.menuId
  tables : t' = { t with
    lastRowId := t.lastRowId + 1
    created := { t.created with roles := t.created.roles + 1 }
    roles := t.roles ++ [row]
    roleMenus := t.roleMenus ++ input.grantsFor row.id }

theorem row_of_createRole {r : Role} (h : t.createRole r = .ok t') :
    ∃ row, row.id = r.id ∧ (∀ x ∈ t.roles, x.id ≠ r.id) ∧
      t' = { t with
        lastRowId := t.lastRowId + 1
        created := { t.created with roles := t.created.roles + 1 }
        roles := t.roles ++ [row] } := by
  obtain ⟨hfresh, -, rfl⟩ := Store.Tables.createRole_eq_ok.1 h
  exact ⟨_, by rfl, hfresh, rfl⟩

theorem ends_insert {actor : String} {input : RoleInput} {role : Role}
    (h : (insert s actor input).run.Ends env s.id d (.ok role) d') :
    ∃ row, Added env input d.tables row d'.tables ∧ role.id = row.id := by
  rw [insert] at h
  obtain ⟨_, -, h⟩ := ends_look (fun _ _ => ends_ensureNameFree) h
  obtain ⟨_, hgranted, h⟩ := ends_look (fun _ _ => ends_ensureMenusExist) h
  replace h := ends_freshId_then.1 h
  obtain ⟨now, h⟩ := ends_readClock_then.1 h
  obtain ⟨t₁, h₁, h⟩ := ends_change_then.1 h
  obtain ⟨t₂, h₂, h⟩ := ends_changeAll_then.1 h
  obtain ⟨row, hrow, hfresh, rfl⟩ := row_of_createRole h₁
  obtain rfl := Store.Amendable.grants.inserts h₂
  obtain ⟨hrole, rfl⟩ := ends_pure.1 h
  refine ⟨row, ⟨hrow, fun r hr => hrow ▸ hfresh r hr, hgranted, ?_⟩, ?_⟩
  · rw [hrow]
    rfl
  · rw [Except.ok.inj hrole, hrow]

/-! ## Updates -/

/-- A role is updated, and its grants are replaced. -/
structure Updated (id : String) (input : RoleInput) (t t' : Store.Tables) : Prop where
  found : ∃ r ∈ t.roles, r.id = id
  granted : ∀ g ∈ input.grants, ∃ m ∈ t.menus, m.id = g.menuId
  ids : t'.roles.map Role.id = t.roles.map Role.id
  grants : Store.Replaced Grant.roleId Grant.menuId id (input.grantsFor id) t.roleMenus t'.roleMenus
  frame : t' = { t with roles := t'.roles, roleMenus := t'.roleMenus }

theorem updateRole_eq {r : Role} (h : t.apply (.updateRole r) = .ok t') :
    ∃ roles, roles.map Role.id = t.roles.map Role.id ∧ t' = { t with roles := roles } := by
  obtain ⟨-, roles, hroles, rfl⟩ := Store.Tables.updateRole_eq_ok.1 h
  exact ⟨roles, Store.Tables.map_amend hroles fun _ => rfl, rfl⟩

theorem fault?_eq_none {input : RoleInput} (h : fault? input = none) :
    (input.grants.map GrantInput.menuId).Nodup := by
  unfold fault? at h
  split at h
  · cases h
  · split at h
    · cases h
    · exact firstDuplicate_eq_none.1 ‹_›

theorem owner_grantsFor {input : RoleInput} {id : String} {g : Grant} (h : g ∈ input.grantsFor id) :
    g.roleId = id := by
  obtain ⟨_, -, rfl⟩ := List.mem_map.1 h
  rfl

/-- The menus that a description without a fault grants are distinct. -/
theorem nodup_grantsFor {input : RoleInput} (hf : fault? input = none) (id : String) :
    ((input.grantsFor id).map Grant.menuId).Nodup := by
  rw [RoleInput.grantsFor, List.map_map]
  exact fault?_eq_none hf

theorem ends_syncGrants {id : String} {input : RoleInput} {u : Unit} (hf : fault? input = none)
    (h : (syncGrants s id input).run.Ends env s.id d (.ok u) d') :
    ∃ rows, d'.tables = { d.tables with roleMenus := rows } ∧
      Store.Replaced Grant.roleId Grant.menuId id (input.grantsFor id) d.tables.roleMenus rows := by
  rw [syncGrants] at h
  replace h := ends_ask_then.1 h
  obtain ⟨t₁, h₁, h⟩ := ends_changeAll_then.1 h
  obtain ⟨t₂, h₂, h⟩ := ends_changeAll_then.1 h
  obtain ⟨t₃, h₃, rfl⟩ := Session.ends_changeAll_ok.1 h
  exact Store.Amendable.grants.sync (fun _ => owner_grantsFor) (nodup_grantsFor hf id) h₁ h₂ h₃

theorem ends_applyUpdate {id : String} {input : RoleInput} {role : Role} (hf : fault? input = none)
    (h : (applyUpdate s id input).run.Ends env s.id d (.ok role) d') :
    role.id = id ∧ Updated id input d.tables d'.tables := by
  rw [applyUpdate] at h
  replace h := ends_ask_then.1 h
  cases hold : d.tables.ask (.getRole id) with
  | none =>
    simp only [hold] at h
    exact (not_ends_refuse h).elim
  | some old =>
    simp only [hold] at h
    obtain ⟨hmem, hid⟩ := find_row hold
    obtain ⟨_, -, h⟩ := ends_look (fun _ _ => ends_ensureNameFree) h
    obtain ⟨_, hgranted, h⟩ := ends_look (fun _ _ => ends_ensureMenusExist) h
    obtain ⟨_, d₁, hsync, h⟩ := ends_seq_ok.1 h
    obtain ⟨rows, htables, hrows⟩ := ends_syncGrants hf hsync
    obtain ⟨now, h⟩ := ends_readClock_then.1 h
    obtain ⟨t₁, h₁, h⟩ := ends_change_then.1 h
    obtain ⟨roles, hids, rfl⟩ := updateRole_eq h₁
    obtain ⟨hrole, rfl⟩ := ends_pure.1 h
    rw [htables] at hids
    refine ⟨by rw [Except.ok.inj hrole]; exact hid, ⟨old, hmem, hid⟩, hgranted, hids, ?_, ?_⟩
    · simp only [htables]
      exact hrows
    · simp only [htables]

/-! ## Removals -/

/-- A role is removed with its grants and every assignment of it. -/
structure Removed (id : String) (t t' : Store.Tables) : Prop where
  found : ∃ r ∈ t.roles, r.id = id
  tables : t' = { t with
    roles := t.roles.filter (·.id != id)
    roleMenus := t.roleMenus.filter (·.roleId != id)
    userRoles := t.userRoles.filter (·.roleId != id) }

theorem ends_remove {id : String} {u : Unit}
    (h : (remove s id).run.Ends env s.id d (.ok u) d') : Removed id d.tables d'.tables := by
  rw [remove] at h
  replace h := ends_ask_then.1 h
  cases hold : d.tables.ask (.getRole id) with
  | none =>
    simp only [hold] at h
    exact (not_ends_refuse h).elim
  | some r =>
    simp only [hold] at h
    obtain ⟨t₁, h₁, h⟩ := ends_change_then.1 h
    obtain ⟨t₂, h₂, h⟩ := ends_change_then.1 h
    obtain ⟨t₃, h₃, rfl⟩ := Session.ends_change_ok.1 h
    obtain rfl := Except.ok.inj h₁
    obtain rfl := Except.ok.inj h₂
    obtain rfl := Except.ok.inj h₃
    exact ⟨⟨r, find_row hold⟩, rfl⟩

end Roles

end AccessAdmin
