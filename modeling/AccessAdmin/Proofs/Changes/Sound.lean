import AccessAdmin.Proofs.Changes.Mutations

/-!
# Sound tables

The references of the tables name stored rows, and the ids of the rows are distinct. A grant may
outlive the menu it grants; then its menu id belongs to no row, and to no row ever again.

* `Store.Tables.Sound`: the invariant.
* `Mutation.Changes.sound`: every change keeps it.
* `Reached.sound`: sequences of commands lead to sound tables only, disturbed or not.
* `Reached.invariant`: and to tables with whatever the changes of sound tables keep.
-/

namespace AccessAdmin

/-- Ids that are used, not empty and distinct. -/
structure ProperIds (used ids : List String) : Prop where
  nonempty : "" ∉ ids
  used : ids ⊆ used
  distinct : ids.Nodup

namespace ProperIds

variable {used used' ids ids' : List String} {id : String}

theorem mono (h : ProperIds used ids) (hsub : used ⊆ used') : ProperIds used' ids :=
  ⟨h.nonempty, fun _ hx => hsub (h.used hx), h.distinct⟩

theorem sublist (h : ProperIds used ids) (hsub : ids'.Sublist ids) :
    ProperIds (ids' ++ used) ids' :=
  ⟨fun he => h.nonempty (hsub.subset he), List.subset_append_left _ _, h.distinct.sublist hsub⟩

theorem same (h : ProperIds used ids) (he : ids' = ids) : ProperIds (ids' ++ used) ids' :=
  h.sublist (he ▸ List.Sublist.refl _)

theorem insert (h : ProperIds used ids) (hperm : ids'.Perm (id :: ids)) (hne : id ≠ "")
    (hnew : id ∉ used) : ProperIds (ids' ++ used) ids' := by
  refine ⟨fun he => ?_, List.subset_append_left _ _, ?_⟩
  · rcases List.mem_cons.1 (hperm.mem_iff.1 he) with he | he
    · exact hne he.symm
    · exact h.nonempty he
  · exact hperm.nodup_iff.2 (List.nodup_cons.2 ⟨fun hid => hnew (h.used hid), h.distinct⟩)

end ProperIds

namespace Store.Tables

/-- The ids are proper, and what refers to roles and users refers to stored ones. -/
structure Sound (used : List String) (t : Tables) : Prop where
  ids : ProperIds used t.ids
  granted : ∀ g ∈ t.roleMenus, g.roleId ∈ t.roles.map Role.id ∧ g.menuId ∈ used
  assigned : ∀ a ∈ t.userRoles, a.userId ∈ t.users.map User.id ∧ a.roleId ∈ t.roles.map Role.id

theorem mem_ids {t : Tables} {id : String} : id ∈ t.ids ↔
    (∃ m ∈ t.menus, m.id = id) ∨ (∃ r ∈ t.roles, r.id = id) ∨ ∃ u ∈ t.users, u.id = id := by
  simp only [ids, List.mem_append, List.mem_map, or_assoc]

namespace Sound

variable {used used' : List String} {t : Tables}

theorem mono (h : t.Sound used) (hsub : used ⊆ used') : t.Sound used' :=
  ⟨h.ids.mono hsub, fun g hg => ⟨(h.granted g hg).1, hsub (h.granted g hg).2⟩, h.assigned⟩

/-- What is known of a stored grant stays known when ids are added to the used ones. -/
theorem granted_later (h : t.Sound used) {g : Grant} (hg : g ∈ t.roleMenus) (ids : List String) :
    g.roleId ∈ t.roles.map Role.id ∧ g.menuId ∈ ids ++ used :=
  ⟨(h.granted g hg).1, List.mem_append_right _ (h.granted g hg).2⟩

/-- The id of a stored menu is used. -/
theorem menu_used (h : t.Sound used) {id : String} (hm : ∃ m ∈ t.menus, m.id = id) : id ∈ used :=
  h.ids.used (mem_ids.2 (.inl hm))

/-- Tables that are left as they are stay sound. -/
theorem same (h : t.Sound used) : t.Sound (t.ids ++ used) :=
  h.mono (List.subset_append_right _ _)

theorem menus (h : t.Sound used) : (t.menus.map Menu.id).Nodup :=
  (List.nodup_append.1 (List.nodup_append.1 h.ids.distinct).1).1

theorem users (h : t.Sound used) : (t.users.map User.id).Nodup :=
  (List.nodup_append.1 h.ids.distinct).2.1

theorem role_ne_empty (h : t.Sound used) {r : Role} (hr : r ∈ t.roles) : r.id ≠ "" :=
  fun he => h.ids.nonempty (he ▸ mem_ids.2 (.inr (.inl ⟨r, hr, rfl⟩)))

theorem user_ne_empty (h : t.Sound used) {u : User} (hu : u ∈ t.users) : u.id ≠ "" :=
  fun he => h.ids.nonempty (he ▸ mem_ids.2 (.inr (.inr ⟨u, hu, rfl⟩)))

/-- No user is also a role. -/
theorem user_ne_role (h : t.Sound used) {u : User} {r : Role} (hu : u ∈ t.users)
    (hr : r ∈ t.roles) : u.id ≠ r.id := fun he =>
  (List.nodup_append.1 h.ids.distinct).2.2 r.id
    (List.mem_append_right _ (List.mem_map_of_mem hr)) u.id (List.mem_map_of_mem hu) he.symm

end Sound

theorem sound_empty : Sound [] {} where
  ids := ⟨List.not_mem_nil, List.nil_subset _, List.nodup_nil⟩
  granted _ h := nomatch h
  assigned _ h := nomatch h

end Store.Tables

/-! ## Changes -/

section Changes

open Store.Tables

variable {env : Surroundings} {used : List String} {t t' : Store.Tables}

/-- The next id is not empty and is none of the used ones. -/
theorem Surroundings.FreshFor.next (h : env.FreshFor used t) (kind : Kind) {id : String}
    (hid : id = env.idName kind (MemoryStore.createdOf t kind + 1)) : id ≠ "" ∧ id ∉ used :=
  ⟨hid ▸ h.nonempty _ _ (Nat.lt_succ_self _), hid ▸ h.unused _ _ (Nat.lt_succ_self _)⟩

/-- The ids to come stay fresh while the ids that were to come next come into use. -/
theorem Surroundings.FreshFor.grow {used' : List String} (h : env.FreshFor used t)
    (hcreated : ∀ kind, MemoryStore.createdOf t kind ≤ MemoryStore.createdOf t' kind)
    (hused : ∀ id ∈ used', id ∈ used ∨ ∃ kind n, MemoryStore.createdOf t kind < n ∧
      n ≤ MemoryStore.createdOf t' kind ∧ env.idName kind n = id) : env.FreshFor used' t' := by
  have hlt {kind : Kind} {n : Nat} (hn : MemoryStore.createdOf t' kind < n) :
      MemoryStore.createdOf t kind < n := Nat.lt_of_le_of_lt (hcreated kind) hn
  refine ⟨fun kind n hn => h.nonempty kind n (hlt hn), fun kind n hn hmem => ?_,
    fun kind n kind' n' hn hn' => h.distinct kind n kind' n' (hlt hn) (hlt hn')⟩
  rcases hused _ hmem with hold | ⟨kind', n', hlow, hhigh, hsame⟩
  · exact h.unused kind n (hlt hn) hold
  · obtain ⟨rfl, rfl⟩ := h.distinct _ _ _ _ hlow (hlt hn) hsame
    exact Nat.lt_irrefl _ (Nat.lt_of_lt_of_le hn hhigh)

theorem Menus.Added.perm_ids {input : MenuInput} {row : Menu}
    (h : Added env input t row t') : t'.ids.Perm (row.id :: t.ids) := by
  rw [h.tables]
  simp only [Store.Tables.ids, List.map_append, List.map_cons, List.map_nil, List.append_assoc,
    List.singleton_append]
  exact List.perm_middle

theorem Roles.Added.perm_ids {input : RoleInput} {row : Role}
    (h : Added env input t row t') : t'.ids.Perm (row.id :: t.ids) := by
  rw [h.tables]
  simp only [Store.Tables.ids, List.map_append, List.map_cons, List.map_nil, List.append_assoc,
    List.singleton_append]
  rw [← List.append_assoc, ← List.append_assoc (t.menus.map Menu.id)]
  exact List.perm_middle

theorem Users.Added.perm_ids {input : UserInput} {row : User}
    (h : Added env input t row t') : t'.ids.Perm (row.id :: t.ids) := by
  rw [h.tables]
  simp only [Store.Tables.ids, List.map_append, List.map_cons, List.map_nil]
  rw [← List.append_assoc]
  exact List.perm_append_singleton _ _

theorem Menus.Added.sound {input : MenuInput} {row : Menu} (h : t.Sound used)
    (hf : env.FreshFor used t) (ha : Added env input t row t') : t'.Sound (t'.ids ++ used) := by
  obtain ⟨hne, hnew⟩ := hf.next .menu ha.id
  refine ⟨h.ids.insert ha.perm_ids hne hnew, fun g hg => ?_, ?_⟩
  · rw [ha.tables] at hg ⊢
    exact h.granted_later hg _
  · rw [ha.tables]
    exact h.assigned

/-- After an insertion of a menu the ids to come are still fresh. -/
theorem Menus.Added.freshFor {input : MenuInput} {row : Menu} (hf : env.FreshFor (t.ids ++ used) t)
    (ha : Added env input t row t') : env.FreshFor (t'.ids ++ used) t' := by
  refine hf.grow (fun kind => ?_) fun id hid => ?_
  · rw [ha.tables]
    cases kind with
    | menu => exact Nat.le_succ _
    | role | user => exact Nat.le_refl _
  · rcases List.mem_append.1 hid with hid | hid
    · rcases List.mem_cons.1 (ha.perm_ids.mem_iff.1 hid) with rfl | hid
      · refine .inr ⟨.menu, _, Nat.lt_succ_self _, ?_, ha.id.symm⟩
        rw [ha.tables]
        exact Nat.le_refl _
      · exact .inl (List.mem_append_left _ hid)
    · exact .inl (List.mem_append_right _ hid)

/-- One step of the growth of a forest: a menu with a fresh id is inserted into sound tables. -/
def Menus.Planted (env : Surroundings) (t t' : Store.Tables) : Prop :=
  ∃ used input row, t.Sound used ∧ env.FreshFor used t ∧ Added env input t row t'

/-- A forest is planted menu by menu, and the tables are sound and the ids fresh all the way. -/
theorem Menus.Grown.planted (h : t.Sound used) (hf : env.FreshFor used t) (hg : Grown env t t') :
    Relation.ReflTransGen (Planted env) t t' ∧ t'.Sound (t'.ids ++ used) ∧
      env.FreshFor (t'.ids ++ used) t' := by
  have hsub : t.ids ++ used ⊆ used := List.append_subset.2 ⟨h.ids.used, List.Subset.refl _⟩
  have hf : env.FreshFor (t.ids ++ used) t :=
    ⟨hf.nonempty, fun kind n hn hmem => hf.unused kind n hn (hsub hmem), hf.distinct⟩
  induction hg with
  | refl => exact ⟨.refl, h.same, hf⟩
  | @tail t₁ t₂ _ hadded ih =>
    obtain ⟨input, row, -, hadded⟩ := hadded
    obtain ⟨hplanted, hsound, hfresh⟩ := ih
    refine ⟨hplanted.tail ⟨_, input, row, hsound, hfresh, hadded⟩,
      (hadded.sound hsound hfresh).mono ?_, hadded.freshFor hfresh⟩
    have hids : t₁.ids ⊆ t₂.ids := fun id hid =>
      hadded.perm_ids.mem_iff.2 (List.mem_cons_of_mem _ hid)
    exact List.append_subset.2 ⟨List.subset_append_left _ _, List.append_subset.2
      ⟨fun id hid => List.mem_append_left _ (hids hid), List.subset_append_right _ _⟩⟩

theorem relocated_ids (menus : List Menu) (old : Menu) (parentId : String) (path : AncestorPath) :
    (Menus.relocated menus old parentId path).map Menu.id = menus.map Menu.id := by
  unfold Menus.relocated
  split
  · rfl
  · rw [List.map_map]
    rfl

theorem Menus.Updated.menu_ids {id : String} {input : MenuInput} {old row : Menu}
    (hu : Updated id input old row t t') : t'.menus.map Menu.id = t.menus.map Menu.id := by
  rw [hu.menus, List.map_map, ← relocated_ids t.menus old input.parentId row.parentPath]
  refine List.map_congr_left fun m _ => ?_
  rw [Function.comp_apply]
  split <;> rfl

theorem Menus.Updated.ids_eq {id : String} {input : MenuInput} {old row : Menu}
    (hu : Updated id input old row t t') : t'.ids = t.ids := by
  rw [Store.Tables.ids, Store.Tables.ids, hu.menu_ids, hu.frame]

theorem Menus.Updated.sound {id : String} {input : MenuInput} {old row : Menu} (h : t.Sound used)
    (hu : Updated id input old row t t') : t'.Sound (t'.ids ++ used) := by
  refine ⟨h.ids.same hu.ids_eq, fun g hg => ?_, ?_⟩
  · rw [hu.frame] at hg ⊢
    exact h.granted_later hg _
  · rw [hu.frame]
    exact h.assigned

theorem Menus.Removed.ids_sublist {id : String} (hr : Removed id t t') :
    t'.ids.Sublist t.ids := by
  rw [hr.tables]
  exact ((List.filter_sublist.map _).append_right _).append_right _

theorem Menus.Removed.sound {id : String} (h : t.Sound used) (hr : Removed id t t') :
    t'.Sound (t'.ids ++ used) := by
  refine ⟨h.ids.sublist hr.ids_sublist, fun g hg => ?_, ?_⟩
  · rw [hr.tables] at hg ⊢
    exact h.granted_later hg _
  · rw [hr.tables]
    exact h.assigned

theorem Roles.Added.sound {input : RoleInput} {row : Role} (h : t.Sound used)
    (hf : env.FreshFor used t) (ha : Added env input t row t') : t'.Sound (t'.ids ++ used) := by
  obtain ⟨hne, hnew⟩ := hf.next .role ha.id
  have hroles (id : String) (hid : id ∈ t.roles.map Role.id) : id ∈ t'.roles.map Role.id := by
    rw [ha.tables, List.map_append]
    exact List.mem_append_left _ hid
  refine ⟨h.ids.insert ha.perm_ids hne hnew, fun g hg => ?_, fun a hassigned => ?_⟩
  · rw [ha.tables] at hg
    rcases List.mem_append.1 hg with hg | hg
    · exact ⟨hroles _ (h.granted g hg).1, List.mem_append_right _ (h.granted g hg).2⟩
    · obtain ⟨x, hx, rfl⟩ := List.mem_map.1 hg
      refine ⟨?_, List.mem_append_right _ (h.menu_used (ha.granted x hx))⟩
      rw [ha.tables, List.map_append]
      exact List.mem_append_right _ (.head _)
  · rw [ha.tables] at hassigned ⊢
    obtain ⟨huser, hrole⟩ := h.assigned a hassigned
    exact ⟨huser, ha.tables ▸ hroles _ hrole⟩

theorem Roles.Updated.ids_eq {id : String} {input : RoleInput} (hu : Updated id input t t') :
    t'.ids = t.ids := by
  rw [Store.Tables.ids, Store.Tables.ids, hu.ids, hu.frame]

theorem Roles.Updated.sound {id : String} {input : RoleInput} (h : t.Sound used)
    (hu : Updated id input t t') : t'.Sound (t'.ids ++ used) := by
  refine ⟨h.ids.same hu.ids_eq, fun g hg => ?_, fun a ha => ?_⟩
  · rw [hu.ids]
    rcases hu.grants.mem_or g hg with hg | hg
    · exact h.granted_later hg _
    · obtain ⟨x, hx, rfl⟩ := List.mem_map.1 hg
      obtain ⟨r, hr, hrid⟩ := hu.found
      exact ⟨hrid ▸ List.mem_map_of_mem hr,
        List.mem_append_right _ (h.menu_used (hu.granted x hx))⟩
  · rw [hu.ids]
    rw [hu.frame] at ha ⊢
    exact h.assigned a ha

theorem mem_map_filter_ne {α : Type} {rows : List α} {idOf : α → String} {id x : String}
    (hx : x ∈ rows.map idOf) (hne : x ≠ id) : x ∈ (rows.filter (idOf · != id)).map idOf := by
  obtain ⟨r, hr, rfl⟩ := List.mem_map.1 hx
  exact List.mem_map_of_mem (List.mem_filter.2 ⟨hr, bne_iff_ne.2 hne⟩)

theorem Roles.Removed.ids_sublist {id : String} (hr : Removed id t t') :
    t'.ids.Sublist t.ids := by
  rw [hr.tables]
  exact ((List.filter_sublist.map _).append_left _).append_right _

theorem Roles.Removed.sound {id : String} (h : t.Sound used) (hr : Removed id t t') :
    t'.Sound (t'.ids ++ used) := by
  refine ⟨h.ids.sublist hr.ids_sublist, fun g hg => ?_, fun a ha => ?_⟩
  · rw [hr.tables] at hg ⊢
    obtain ⟨hg, hne⟩ := List.mem_filter.1 hg
    obtain ⟨hrole, hmenu⟩ := h.granted_later hg _
    exact ⟨mem_map_filter_ne hrole (bne_iff_ne.1 hne), hmenu⟩
  · rw [hr.tables] at ha ⊢
    obtain ⟨ha, hne⟩ := List.mem_filter.1 ha
    exact ⟨(h.assigned a ha).1, mem_map_filter_ne (h.assigned a ha).2 (bne_iff_ne.1 hne)⟩

theorem Users.Added.sound {input : UserInput} {row : User} (h : t.Sound used)
    (hf : env.FreshFor used t) (ha : Added env input t row t') : t'.Sound (t'.ids ++ used) := by
  obtain ⟨hne, hnew⟩ := hf.next .user ha.id
  refine ⟨h.ids.insert ha.perm_ids hne hnew, fun g hg => ?_, fun a hassigned => ?_⟩
  · rw [ha.tables] at hg ⊢
    exact h.granted_later hg _
  · rw [ha.tables] at hassigned ⊢
    simp only [List.map_append, List.mem_append]
    rcases List.mem_append.1 hassigned with hassigned | hassigned
    · exact ⟨.inl (h.assigned a hassigned).1, (h.assigned a hassigned).2⟩
    · obtain ⟨role, hrole, rfl⟩ := List.mem_map.1 hassigned
      obtain ⟨r, hr, rfl⟩ := ha.assigned role hrole
      exact ⟨.inr (.head _), List.mem_map_of_mem hr⟩

theorem Users.Updated.user_ids {id : String} {input : UserInput} (hu : Updated id input t t') :
    t'.users.map User.id = t.users.map User.id := by
  obtain ⟨f, hf, hkeeps⟩ := hu.users
  rw [hf, List.map_map]
  exact List.map_congr_left fun u hmem => (hkeeps u hmem).1

theorem Users.Updated.ids_eq {id : String} {input : UserInput} (hu : Updated id input t t') :
    t'.ids = t.ids := by
  rw [Store.Tables.ids, Store.Tables.ids, hu.user_ids, hu.frame]

theorem Users.Updated.sound {id : String} {input : UserInput} (h : t.Sound used)
    (hu : Updated id input t t') : t'.Sound (t'.ids ++ used) := by
  refine ⟨h.ids.same hu.ids_eq, fun g hg => ?_, fun a ha => ?_⟩
  · rw [hu.frame] at hg ⊢
    exact h.granted_later hg _
  · rw [hu.user_ids]
    rw [hu.mem_assignments] at ha
    rw [hu.frame]
    rcases ha with ⟨ha, -⟩ | ha
    · exact h.assigned a ha
    · obtain ⟨role, hrole, rfl⟩ := List.mem_map.1 ha
      obtain ⟨u, huser, rfl⟩ := hu.found
      obtain ⟨r, hr, rfl⟩ := hu.assigned role hrole
      exact ⟨List.mem_map_of_mem huser, List.mem_map_of_mem hr⟩

theorem Users.Removed.ids_sublist {id : String} (hr : Removed id t t') :
    t'.ids.Sublist t.ids := by
  rw [hr.tables]
  exact (List.filter_sublist.map _).append_left _

theorem Users.Removed.sound {id : String} (h : t.Sound used) (hr : Removed id t t') :
    t'.Sound (t'.ids ++ used) := by
  refine ⟨h.ids.sublist hr.ids_sublist, fun g hg => ?_, fun a ha => ?_⟩
  · rw [hr.tables] at hg ⊢
    exact h.granted_later hg _
  · rw [hr.tables] at ha ⊢
    obtain ⟨ha, hne⟩ := List.mem_filter.1 ha
    exact ⟨mem_map_filter_ne (h.assigned a ha).1 (bne_iff_ne.1 hne), (h.assigned a ha).2⟩

/-- Changes of users that keep their ids. -/
theorem map_ids_mapUsers {f : User → User} (hf : ∀ u, (f u).id = u.id) :
    (t.users.map f).map User.id = t.users.map User.id := by
  rw [List.map_map]
  exact List.map_congr_left fun u _ => hf u

theorem ids_mapUsers {f : User → User} (hf : ∀ u, (f u).id = u.id) :
    ({ t with users := t.users.map f } : Store.Tables).ids = t.ids := by
  rw [Store.Tables.ids, Store.Tables.ids, map_ids_mapUsers hf]

theorem sound_mapUsers {f : User → User} (h : t.Sound used) (hf : ∀ u, (f u).id = u.id)
    (ht : t' = { t with users := t.users.map f }) : t'.Sound (t'.ids ++ used) := by
  subst ht
  refine ⟨h.ids.same (ids_mapUsers hf), fun g hg => h.granted_later hg _, fun a ha => ?_⟩
  rw [map_ids_mapUsers hf]
  exact h.assigned a ha

/-- Every change keeps the tables sound. -/
theorem Mutation.Changes.sound {m : Mutation} {a : m.Result} (h : t.Sound used)
    (hf : env.FreshFor used t) (hc : m.Changes env t a t') : t'.Sound (t'.ids ++ used) := by
  cases m with
  | createMenu _ =>
    obtain ⟨_, ha⟩ := hc
    exact ha.sound h hf
  | updateMenu _ _ =>
    obtain ⟨_, _, hu⟩ := hc
    exact hu.sound h
  | deleteMenu _ => exact Menus.Removed.sound h hc
  | seedMenus _ => exact (Menus.Grown.planted h hf hc).2.1
  | createRole _ =>
    obtain ⟨_, ha, -⟩ := hc
    exact ha.sound h hf
  | updateRole _ _ => exact Roles.Updated.sound h hc
  | deleteRole _ => exact Roles.Removed.sound h hc
  | createUser _ =>
    obtain ⟨_, ha, -⟩ := hc
    exact ha.sound h hf
  | updateUser _ _ => exact Users.Updated.sound h hc
  | deleteUser _ => exact Users.Removed.sound h hc
  | updateStatus _ _ =>
    obtain ⟨-, ht⟩ := hc
    exact sound_mapUsers h (fun _ => Users.withStatus_id) ht
  | updatePassword _ _ | changeOwnPassword _ _ _ =>
    obtain ⟨_, hcalm, ht⟩ := hc
    exact sound_mapUsers h (fun u => (hcalm u).1) ht

end Changes

/-! ## Sequences of commands -/

/-- Whatever becomes of a command: the tables stay as they are, or are those of a commit. -/
theorem Command.Outcome.tables {q : Command} {w vc w' : World MemoryStore}
    {rc r : Except ServiceError q.mutation.Result} (h : q.Outcome w vc w' rc r) :
    w'.tables = w.tables ∨
      q.mutation.Commits q.env q.users q.ctx.actor w.desk rc vc.desk ∧ w'.tables = vc.tables := by
  cases h with
  | refused _ _ _ _ _ hdesk => exact .inl (congrArg Desk.tables hdesk)
  | committed hcommits _ hends =>
    obtain ⟨_, _, _, hdesk⟩ | ⟨_, _, _, htables⟩ | ⟨_, hdesk⟩ := hends
    · exact .inl (congrArg Desk.tables hdesk)
    · exact .inr ⟨hcommits, htables⟩
    · exact .inr ⟨hcommits, congrArg Desk.tables hdesk⟩

/-- A command leaves sound tables as they are, or changes them. -/
theorem Command.tables_run {q : Command} {w : World MemoryStore} {used : List String}
    (hi : w.Idle) (h : w.tables.Sound used) :
    (q.run w).2.tables = w.tables ∨
      ∃ a, q.mutation.Changes q.env w.tables a (q.run w).2.tables := by
  obtain ⟨rc, vc, r, w', -, hr, -, -, hout⟩ := q.run_outcome hi
  rw [hr]
  obtain htables | ⟨hcommits, htables⟩ := hout.tables
  · exact .inl htables
  · obtain ⟨a, hchanges, -⟩ := hcommits.changes h.menus h.users
    exact .inr ⟨a, htables ▸ hchanges⟩

/-- Sequences of commands lead to sound tables only. -/
theorem Reached.sound {admits : Command → Prop} {used : List String} {w : World MemoryStore}
    (h : Reached admits used w) : w.tables.Sound used := by
  induction h with
  | start hst _ => rw [World.tables, hst]; exact Store.Tables.sound_empty
  | step q hreached _ hf ih =>
    obtain htables | ⟨a, hchanges⟩ := q.tables_run hreached.idle ih
    · rw [htables]
      exact ih.same
    · exact hchanges.sound ih hf

/-- What the empty tables meet and every change of sound tables keeps holds after every sequence of
commands. -/
theorem Reached.invariant {P : Store.Tables → Prop} (h₀ : P {})
    (hP : ∀ {used : List String} {env : Surroundings} {t t' : Store.Tables} {m : Mutation}
      {a : m.Result}, t.Sound used → m.Changes env t a t' → P t → P t')
    {admits : Command → Prop} {used : List String} {w : World MemoryStore}
    (h : Reached admits used w) : P w.tables := by
  induction h with
  | start hst _ =>
    rw [World.tables, hst]
    exact h₀
  | step q hreached _ _ ih =>
    obtain htables | ⟨a, hchanges⟩ := q.tables_run hreached.idle hreached.sound
    · rw [htables]
      exact ih
    · exact hP hreached.sound hchanges ih

end AccessAdmin
