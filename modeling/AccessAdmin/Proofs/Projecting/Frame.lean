import AccessAdmin.Proofs.Projecting.Turns

/-!
# Nothing is forgotten

A mutation projects the subjects it names as its follow-up and no others. This is enough: what the
tables come to for all other subjects is what it was before the change.

* `FollowUp.Covers`: a change of the tables shows at the subjects of the follow-up only.
* `Mutation.Changes.apt`, `Mutation.Changes.covers`: every mutation has the right follow-up.
-/

namespace AccessAdmin

open Policy

/-- What the tables come to differs at most for the subjects of a follow-up. -/
structure FollowUp.Covers (f : FollowUp) (t t' : Store.Tables) : Prop where
  permissions : ∀ p, ¬f.TouchesRule p → (t.Entitles p ↔ t'.Entitles p)
  memberships : ∀ m, ¬f.TouchesMembership m → (t.Enrolls m ↔ t'.Enrolls m)

section

variable {env : Surroundings} {used : List String} {t t' : Store.Tables} {id : String}

/-! ## Menus -/

/-- Nobody has a grant of a menu that is inserted. -/
theorem Menus.Added.covers {input : MenuInput} {row : Menu} (h : t.Sound used)
    (hf : env.FreshFor used t) (ha : Added env input t row t') : FollowUp.nothing.Covers t t' := by
  obtain ⟨-, hnew⟩ := hf.next .menu ha.id
  rw [ha.tables]
  refine ⟨fun p _ => and_congr_right fun _ => ?_, fun _ _ => Iff.rfl⟩
  constructor
  · rintro ⟨g, hg, x, hx, hy⟩
    exact ⟨g, hg, x, List.mem_append_left _ hx, hy⟩
  · rintro ⟨g, hg, x, hx, hy⟩
    rcases List.mem_append.1 hx with hx | hx
    · exact ⟨g, hg, x, hx, hy⟩
    · obtain ⟨_, _, rfl⟩ := List.mem_map.1 hx
      refine (hnew ?_).elim
      rw [show row.id = g.menuId from hy.menu]
      exact (h.granted g hg).2

theorem Menus.Grown.covers (h : t.Sound used) (hf : env.FreshFor used t) (hg : Grown env t t') :
    FollowUp.nothing.Covers t t' := by
  have hsteps := (hg.planted h hf).1
  clear hg
  induction hsteps with
  | refl => exact ⟨fun _ _ => Iff.rfl, fun _ _ => Iff.rfl⟩
  | tail _ hstep ih =>
    obtain ⟨_, _, _, hsound, hfresh, hadded⟩ := hstep
    have hlast := hadded.covers hsound hfresh
    exact ⟨fun p hp => (ih.permissions p hp).trans (hlast.permissions p hp),
      fun m hm => (ih.memberships m hm).trans (hlast.memberships m hm)⟩

theorem Store.Tables.mem_granting {g : Grant} (hg : g ∈ t.roleMenus) (hmenu : g.menuId = id) :
    g.roleId ∈ t.granting id :=
  List.mem_map_of_mem (List.mem_filter.2 ⟨hg, beq_iff_eq.2 hmenu⟩)

/-- Only roles that have a grant of a menu can tell whether its resources change. -/
theorem covers_granting (hroles : t'.roles = t.roles) (hgrants : t'.roleMenus = t.roleMenus)
    (hresources : ∀ x : MenuResource, x.menuId ≠ id →
      (x ∈ t'.menuResources ↔ x ∈ t.menuResources))
    (husers : t'.users = t.users) (hassigned : t'.userRoles = t.userRoles) :
    (FollowUp.roles (t.granting id)).Covers t t' := by
  constructor
  · intro p hp
    unfold Store.Tables.Entitles
    rw [hroles, hgrants]
    refine and_congr_right fun _ => exists_congr fun g => and_congr_right fun hg =>
      exists_congr fun x => and_congr_left fun hy => (hresources x ?_).symm
    intro hid
    refine hp ?_
    rw [FollowUp.TouchesRule, ← hy.subject]
    exact Store.Tables.mem_granting hg (hy.menu.symm.trans hid)
  · intro m _
    unfold Store.Tables.Enrolls
    rw [husers, hassigned]

theorem Menus.Updated.covers {input : MenuInput} {old row : Menu}
    (hu : Updated id input old row t t') : (FollowUp.roles (t.granting id)).Covers t t' := by
  refine covers_granting ?_ ?_ (fun _ => hu.resources.mem_other) ?_ ?_
  · rw [hu.frame]
  · rw [hu.frame]
  · rw [hu.frame]
  · rw [hu.frame]

theorem Menus.Removed.covers (hr : Removed id t t') :
    (FollowUp.roles (t.granting id)).Covers t t' := by
  rw [hr.tables]
  refine covers_granting rfl rfl (fun x hne => ?_) rfl rfl
  rw [List.mem_filter, bne_iff_ne, and_iff_left hne]

/-- The roles that grant a menu are stored. -/
theorem apt_granting (h : t.Sound used) : (FollowUp.roles (t.granting id)).Apt t' := by
  intro role hrole
  obtain ⟨g, hg, rfl⟩ := List.mem_map.1 hrole
  obtain ⟨r, hr, he⟩ := List.mem_map.1 (h.granted g (List.mem_filter.1 hg).1).1
  exact he ▸ h.role_ne_empty hr

/-! ## Roles -/

theorem Roles.Added.covers {input : RoleInput} {row : Role} (ha : Added env input t row t') :
    (FollowUp.roles [row.id]).Covers t t' := by
  rw [ha.tables]
  refine ⟨fun p hp => ?_, fun _ _ => Iff.rfl⟩
  have hne : row.id ≠ p.subject := fun he => hp (he ▸ .head _)
  refine and_congr ?_ (exists_congr fun g => ?_)
  · simp only [List.mem_append, List.mem_singleton, or_and_right, exists_or, exists_eq_left, hne,
      or_false]
  · rw [List.mem_append, or_and_right, iff_self_or]
    rintro ⟨hg, x, _, hy⟩
    obtain ⟨_, _, rfl⟩ := List.mem_map.1 hg
    exact (hne hy.subject).elim

theorem exists_id_iff {α : Type} {rows rows' : List α} {idOf : α → String}
    (h : rows'.map idOf = rows.map idOf) (id : String) :
    (∃ x ∈ rows, idOf x = id) ↔ ∃ x ∈ rows', idOf x = id := by
  rw [← List.mem_map, ← List.mem_map, h]

theorem Roles.Updated.covers {input : RoleInput} (hu : Updated id input t t') :
    (FollowUp.roles [id]).Covers t t' := by
  refine ⟨fun p hp => ?_, fun m _ => ?_⟩
  · have hne : p.subject ≠ id := fun he => hp (he ▸ .head _)
    refine and_congr (exists_id_iff hu.ids _) (exists_congr fun g => ?_)
    rw [show t'.menuResources = t.menuResources by rw [hu.frame]]
    refine and_congr_left fun ⟨_, _, hy⟩ => ?_
    exact (hu.grants.mem_other (hy.subject ▸ hne)).symm
  · rw [hu.frame]
    rfl

theorem Roles.Removed.covers (hr : Removed id t t') : (FollowUp.dropRole id).Covers t t' := by
  rw [hr.tables]
  refine ⟨fun p hp => and_congr (exists_congr fun r => ?_) (exists_congr fun g => ?_),
    fun m hm => and_congr_right fun _ => ?_⟩
  · rw [List.mem_filter, bne_iff_ne]
    constructor
    · rintro ⟨hr, he⟩
      exact ⟨⟨hr, he ▸ hp⟩, he⟩
    · rintro ⟨⟨hr, -⟩, he⟩
      exact ⟨hr, he⟩
  · rw [List.mem_filter, bne_iff_ne]
    constructor
    · rintro ⟨hg, x, hx, hy⟩
      exact ⟨⟨hg, hy.subject ▸ hp⟩, x, hx, hy⟩
    · rintro ⟨⟨hg, -⟩, hy⟩
      exact ⟨hg, hy⟩
  · rw [List.mem_filter, bne_iff_ne, and_iff_left]
    exact hm

theorem apt_role (h : t.Sound used) (hfound : ∃ r ∈ t.roles, r.id = id) :
    (FollowUp.roles [id]).Apt t' := by
  intro _ hid
  obtain rfl := List.mem_singleton.1 hid
  obtain ⟨r, hr, rfl⟩ := hfound
  exact h.role_ne_empty hr

theorem Roles.Added.apt {input : RoleInput} {row : Role} (h' : t'.Sound used)
    (ha : Added env input t row t') : (FollowUp.roles [row.id]).Apt t' := by
  refine apt_role h' ⟨row, ?_, rfl⟩
  rw [ha.tables]
  exact List.mem_append_right _ (.head _)

theorem Roles.Updated.apt {input : RoleInput} (h : t.Sound used) (hu : Updated id input t t') :
    (FollowUp.roles [id]).Apt t' := apt_role h hu.found

theorem Roles.Removed.apt (h : t.Sound used) (hr : Removed id t t') :
    (FollowUp.dropRole id).Apt t' := by
  obtain ⟨⟨r, hr, rfl⟩, ht⟩ := hr
  refine ⟨h.role_ne_empty hr, fun x hx => ?_⟩
  rw [ht] at hx
  exact bne_iff_ne.1 (List.mem_filter.1 hx).2

/-! ## Users -/

theorem touchesMembership_ofStatus {status : UserStatus} {m : Membership} :
    (FollowUp.ofStatus id status).TouchesMembership m ↔ m.user = id := by
  cases status <;> rfl

/-- The follow-up of a user with a status fits tables in which it has that status. -/
theorem apt_ofStatus {status : UserStatus} (h : t.Sound used)
    (hstored : ∃ u ∈ t.users, u.id = id ∧ u.status = status) :
    (FollowUp.ofStatus id status).Apt t := by
  obtain ⟨u, hu, rfl, hstatus⟩ := hstored
  cases status with
  | enabled => exact ⟨u, hu, rfl, hstatus⟩
  | disabled =>
    refine ⟨h.user_ne_empty hu, fun x hx he => ?_⟩
    obtain rfl := List.inj_on_of_nodup_map h.users hx hu he
    rw [hstatus]
    decide

theorem Users.Added.apt {input : UserInput} {row : User} (h' : t'.Sound used)
    (ha : Added env input t row t') : (FollowUp.ofStatus row.id input.status).Apt t' := by
  refine apt_ofStatus h' ⟨row, ?_, rfl, ha.status⟩
  rw [ha.tables]
  exact List.mem_append_right _ (.head _)

theorem Users.Updated.apt {input : UserInput} (h' : t'.Sound used) (hu : Updated id input t t') :
    (FollowUp.ofStatus id input.status).Apt t' := by
  obtain ⟨u, hmem, rfl⟩ := hu.found
  obtain ⟨f, husers, hf⟩ := hu.users
  obtain ⟨hid, hstatus⟩ := hf u hmem
  exact apt_ofStatus h'
    ⟨f u, husers ▸ List.mem_map_of_mem hmem, hid, hstatus.trans (if_pos rfl)⟩

theorem Users.Removed.apt (h : t.Sound used) (hr : Removed id t t') :
    (FollowUp.dropUser id).Apt t' := by
  obtain ⟨⟨u, hu, rfl⟩, ht⟩ := hr
  refine ⟨h.user_ne_empty hu, fun x hx he => ?_⟩
  rw [ht] at hx
  exact (bne_iff_ne.1 (List.mem_filter.1 hx).2 he).elim

theorem apt_withStatus {status : UserStatus}
    (h' : ({ t with users := t.users.map (Users.withStatus id status) } : Store.Tables).Sound used)
    (hfound : ∃ u ∈ t.users, u.id = id) :
    (FollowUp.ofStatus id status).Apt
      { t with users := t.users.map (Users.withStatus id status) } := by
  obtain ⟨u, hu, rfl⟩ := hfound
  exact apt_ofStatus h' ⟨_, List.mem_map_of_mem hu, Users.withStatus_id,
    Users.withStatus_status.trans (if_pos rfl)⟩

theorem Users.Added.covers {input : UserInput} {row : User} (ha : Added env input t row t') :
    (FollowUp.ofStatus row.id input.status).Covers t t' := by
  rw [ha.tables]
  refine ⟨fun _ _ => Iff.rfl, fun m hm => ?_⟩
  have hne : row.id ≠ m.user := fun he => hm (touchesMembership_ofStatus.2 he.symm)
  refine and_congr ?_ ?_
  · simp only [List.mem_append, List.mem_singleton, or_and_right, exists_or, exists_eq_left, hne,
      false_and, or_false]
  · rw [List.mem_append, iff_self_or]
    intro hmem
    obtain ⟨_, _, he⟩ := List.mem_map.1 hmem
    exact (hne (congrArg Assignment.userId he)).elim

/-- A change of users that keeps ids, and keeps the status except for one user. -/
theorem exists_enabled_map {f : User → User} {status : UserStatus}
    (hf : ∀ u ∈ t.users, (f u).id = u.id ∧ (f u).status = if u.id = id then status else u.status)
    {m : Membership} (hne : m.user ≠ id) :
    (∃ u ∈ t.users, u.id = m.user ∧ u.status = .enabled) ↔
      ∃ u ∈ t.users.map f, u.id = m.user ∧ u.status = .enabled := by
  simp only [List.mem_map, exists_exists_and_eq_and]
  refine exists_congr fun u => and_congr_right fun hu => ?_
  rw [(hf u hu).1, (hf u hu).2]
  refine and_congr_right fun he => ?_
  rw [if_neg (he ▸ hne)]

theorem Users.Updated.covers {input : UserInput} (hu : Updated id input t t') :
    (FollowUp.ofStatus id input.status).Covers t t' := by
  refine ⟨fun p _ => ?_, fun m hm => ?_⟩
  · rw [hu.frame]
    rfl
  · have hne : m.user ≠ id := mt touchesMembership_ofStatus.2 hm
    obtain ⟨f, husers, hf⟩ := hu.users
    refine and_congr ?_ ?_
    · rw [husers]
      exact exists_enabled_map hf hne
    · rw [hu.mem_assignments]
      constructor
      · exact fun ha => .inl ⟨ha, hne⟩
      · rintro (⟨ha, -⟩ | ha)
        · exact ha
        · obtain ⟨_, _, he⟩ := List.mem_map.1 ha
          exact (hne (congrArg Assignment.userId he).symm).elim

theorem Users.Removed.covers (hr : Removed id t t') : (FollowUp.dropUser id).Covers t t' := by
  rw [hr.tables]
  refine ⟨fun _ _ => Iff.rfl, fun m hm => and_congr (exists_congr fun u => ?_) ?_⟩
  · rw [List.mem_filter, bne_iff_ne]
    constructor
    · rintro ⟨hu, he, hstatus⟩
      exact ⟨⟨hu, he ▸ hm⟩, he, hstatus⟩
    · rintro ⟨⟨hu, -⟩, h⟩
      exact ⟨hu, h⟩
  · rw [List.mem_filter, bne_iff_ne, and_iff_left]
    exact hm

theorem covers_withStatus {status : UserStatus} :
    (FollowUp.ofStatus id status).Covers t
      { t with users := t.users.map (Users.withStatus id status) } := by
  refine ⟨fun _ _ => Iff.rfl, fun m hm => and_congr_left fun _ => ?_⟩
  exact exists_enabled_map (fun u _ => ⟨Users.withStatus_id, Users.withStatus_status⟩)
    (mt touchesMembership_ofStatus.2 hm)

theorem covers_calm {f : User → User} (hf : Users.Calm f) :
    FollowUp.nothing.Covers t { t with users := t.users.map f } := by
  refine ⟨fun _ _ => Iff.rfl, fun m _ => and_congr_left fun _ => ?_⟩
  simp only [List.mem_map, exists_exists_and_eq_and, (hf _).1, (hf _).2]

/-! ## Every mutation -/

/-- A change shows at the subjects of its follow-up only. -/
theorem Mutation.Changes.covers {m : Mutation} {a : m.Result} (h : t.Sound used)
    (hf : env.FreshFor used t) (hc : m.Changes env t a t') : (m.followUp t t' a).Covers t t' := by
  cases m with
  | createMenu _ =>
    obtain ⟨_, ha⟩ := hc
    exact ha.covers h hf
  | updateMenu id _ =>
    obtain ⟨_, _, hu⟩ := hc
    have hgranting : t'.granting id = t.granting id := by
      rw [Store.Tables.granting, hu.frame]
      rfl
    rw [Mutation.followUp, hgranting]
    exact hu.covers
  | deleteMenu _ => exact Menus.Removed.covers hc
  | seedMenus _ => exact Menus.Grown.covers h hf hc
  | createRole _ =>
    obtain ⟨_, ha, he⟩ := hc
    rw [Mutation.followUp, he]
    exact ha.covers
  | updateRole _ _ => exact Roles.Updated.covers hc
  | deleteRole _ => exact Roles.Removed.covers hc
  | createUser _ =>
    obtain ⟨_, ha, he⟩ := hc
    rw [Mutation.followUp, he]
    exact ha.covers
  | updateUser _ _ => exact Users.Updated.covers hc
  | deleteUser _ => exact Users.Removed.covers hc
  | updateStatus _ _ =>
    obtain ⟨-, rfl⟩ := hc
    exact covers_withStatus
  | updatePassword _ _ | changeOwnPassword _ _ _ =>
    obtain ⟨_, hcalm, rfl⟩ := hc
    exact covers_calm hcalm

/-- The follow-up of a mutation fits the tables it leaves. -/
theorem Mutation.Changes.apt {m : Mutation} {a : m.Result} (h : t.Sound used)
    (h' : t'.Sound (t'.ids ++ used)) (hc : m.Changes env t a t') :
    (m.followUp t t' a).Apt t' := by
  cases m with
  | createMenu _ | seedMenus _ | updatePassword _ _ | changeOwnPassword _ _ _ => trivial
  | updateMenu _ _ => exact apt_granting h'
  | deleteMenu _ => exact apt_granting h
  | createRole _ =>
    obtain ⟨_, ha, he⟩ := hc
    rw [Mutation.followUp, he]
    exact ha.apt h'
  | updateRole _ _ => exact Roles.Updated.apt h hc
  | deleteRole _ => exact Roles.Removed.apt h hc
  | createUser _ =>
    obtain ⟨_, ha, he⟩ := hc
    rw [Mutation.followUp, he]
    exact ha.apt h'
  | updateUser _ _ => exact Users.Updated.apt h' hc
  | deleteUser _ => exact Users.Removed.apt h hc
  | updateStatus _ _ =>
    obtain ⟨hfound, rfl⟩ := hc
    exact apt_withStatus h' hfound

end

end AccessAdmin
