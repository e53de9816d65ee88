import AccessAdmin.Proofs.Interleaving.Rules
import AccessAdmin.Proofs.Projecting.Frame

/-!
# Rows that a change leaves

A mutation changes the rows that tell of a rule only if its follow-up sets that rule anew.

* `FollowUp.Concerns`: the rules that a follow-up sets anew.
* `Mutation.Changes.sameFor`: the rows of all other rules are as they were.
-/

namespace AccessAdmin

open Policy

/-- A follow-up sets a rule anew. -/
def FollowUp.Concerns (f : FollowUp) : Rule → Prop
  | .permission p => f.TouchesRule p
  | .membership m => f.TouchesMembership m

variable {env : Surroundings} {used : List String} {t t' : Store.Tables} {id : String} {x : Rule}

/-! ## Rows of a permission -/

section Permissions

variable {p : Permission}

/-- What has to stay the same for a permission. -/
theorem sameFor_permission
    (hroles : (∃ r ∈ t.roles, r.id = p.subject) ↔ ∃ r ∈ t'.roles, r.id = p.subject)
    (hgrants : ∀ g : Grant, g.roleId = p.subject → (g ∈ t.roleMenus ↔ g ∈ t'.roleMenus))
    (hresources : ∀ g ∈ t.grantsOf p.subject, ∀ x : MenuResource, x.menuId = g.menuId →
      (x ∈ t.menuResources ↔ x ∈ t'.menuResources)) : t.SameFor t' (.permission p) := by
  have hof : t.grantsOf p.subject = t'.grantsOf p.subject :=
    Set.ext fun g => and_congr_left fun hg => hgrants g hg
  refine ⟨hroles, hof, Set.ext fun x => ?_⟩
  show (_ ∧ ∃ g ∈ t.grantsOf p.subject, g.menuId = x.menuId) ↔
    _ ∧ ∃ g ∈ t'.grantsOf p.subject, g.menuId = x.menuId
  rw [← hof]
  exact and_congr_left fun ⟨g, hg, hmenu⟩ => hresources g hg x hmenu.symm

/-- The tables differ in the resources of one menu that the subject has no grant of. -/
theorem sameFor_granting {m : String} (hroles : t'.roles = t.roles)
    (hgrants : t'.roleMenus = t.roleMenus)
    (hresources : ∀ x : MenuResource, x.menuId ≠ m →
      (x ∈ t'.menuResources ↔ x ∈ t.menuResources))
    (hp : p.subject ∉ t.granting m) : t.SameFor t' (.permission p) := by
  refine sameFor_permission (by rw [hroles]) (fun g _ => by rw [hgrants]) fun g hg x hmenu => ?_
  refine (hresources x fun he => hp ?_).symm
  exact hg.2 ▸ Store.Tables.mem_granting hg.1 (hmenu.symm.trans he)

end Permissions

/-! ## Menus -/

theorem Menus.Added.sameFor {input : MenuInput} {row : Menu} (h : t.Sound used)
    (hf : env.FreshFor used t) (ha : Added env input t row t') (x : Rule) : t.SameFor t' x := by
  obtain ⟨-, hnew⟩ := hf.next .menu ha.id
  rw [ha.tables]
  cases x with
  | permission p =>
    refine sameFor_permission Iff.rfl (fun _ _ => Iff.rfl) fun g hg x hmenu => ?_
    rw [List.mem_append, iff_self_or]
    intro hx
    obtain ⟨_, _, rfl⟩ := List.mem_map.1 hx
    -- Nobody has a grant of a menu whose id was never used.
    refine (hnew ?_).elim
    rw [show row.id = g.menuId from hmenu]
    exact (h.granted g hg.1).2
  | membership m => exact ⟨Iff.rfl, Iff.rfl⟩

theorem Menus.Grown.sameFor (h : t.Sound used) (hf : env.FreshFor used t) (hg : Grown env t t')
    (x : Rule) : t.SameFor t' x := by
  have hsteps := (hg.planted h hf).1
  clear hg
  induction hsteps with
  | refl => exact .refl _ _
  | tail _ hstep ih =>
    obtain ⟨_, _, _, hsound, hfresh, hadded⟩ := hstep
    exact ih.trans (hadded.sameFor hsound hfresh x)

theorem Menus.Updated.sameFor {input : MenuInput} {old row : Menu}
    (hu : Updated id input old row t t') (hx : ¬(FollowUp.roles (t.granting id)).Concerns x) :
    t.SameFor t' x := by
  cases x with
  | permission p =>
    refine sameFor_granting (by rw [hu.frame]) (by rw [hu.frame]) (fun _ => hu.resources.mem_other) hx
  | membership m =>
    rw [hu.frame]
    exact ⟨Iff.rfl, Iff.rfl⟩

theorem Menus.Removed.sameFor (hr : Removed id t t')
    (hx : ¬(FollowUp.roles (t.granting id)).Concerns x) : t.SameFor t' x := by
  rw [hr.tables]
  cases x with
  | permission p =>
    refine sameFor_granting rfl rfl (fun x hne => ?_) hx
    rw [List.mem_filter, bne_iff_ne, and_iff_left hne]
  | membership m => exact ⟨Iff.rfl, Iff.rfl⟩

/-! ## Roles -/

theorem Roles.Added.sameFor {input : RoleInput} {row : Role} (ha : Added env input t row t')
    (hx : ¬(FollowUp.roles [row.id]).Concerns x) : t.SameFor t' x := by
  rw [ha.tables]
  cases x with
  | permission p =>
    have hne : row.id ≠ p.subject := fun he => hx (he ▸ .head _)
    refine sameFor_permission ?_ (fun g hg => ?_) fun _ _ _ _ => Iff.rfl
    · simp only [List.mem_append, List.mem_singleton, or_and_right, exists_or, exists_eq_left, hne,
        or_false]
    · rw [List.mem_append, iff_self_or]
      intro hmem
      obtain ⟨_, _, rfl⟩ := List.mem_map.1 hmem
      exact (hne hg).elim
  | membership m => exact ⟨Iff.rfl, Iff.rfl⟩

theorem Roles.Updated.sameFor {input : RoleInput} (hu : Updated id input t t')
    (hx : ¬(FollowUp.roles [id]).Concerns x) : t.SameFor t' x := by
  cases x with
  | permission p =>
    have hne : p.subject ≠ id := fun he => hx (he ▸ .head _)
    refine sameFor_permission (exists_id_iff hu.ids _) (fun g hg => ?_) fun _ _ _ _ => ?_
    · exact (hu.grants.mem_other (hg ▸ hne)).symm
    · rw [hu.frame]
  | membership m =>
    rw [hu.frame]
    exact ⟨Iff.rfl, Iff.rfl⟩

theorem Roles.Removed.sameFor (hr : Removed id t t') (hx : ¬(FollowUp.dropRole id).Concerns x) :
    t.SameFor t' x := by
  rw [hr.tables]
  cases x with
  | permission p =>
    have hne : p.subject ≠ id := hx
    refine sameFor_permission (exists_congr fun r => ?_) (fun g hg => ?_) fun _ _ _ _ => Iff.rfl
    · rw [List.mem_filter, bne_iff_ne]
      exact and_congr_left fun he => (and_iff_left (he ▸ hne)).symm
    · rw [List.mem_filter, bne_iff_ne, and_iff_left (hg ▸ hne)]
  | membership m =>
    have hne : m.role ≠ id := hx
    refine ⟨Iff.rfl, ?_⟩
    rw [List.mem_filter, bne_iff_ne, and_iff_left hne]

/-! ## Users -/

/-- What has to stay the same for a membership of a user other than the changed one. -/
theorem sameFor_ofStatus (status : UserStatus)
    (hpermission : ∀ p, t.SameFor t' (.permission p))
    (hmembership : ∀ m : Membership, m.user ≠ id → t.SameFor t' (.membership m))
    (hx : ¬(FollowUp.ofStatus id status).Concerns x) : t.SameFor t' x := by
  cases x with
  | permission p => exact hpermission p
  | membership m => exact hmembership m (mt touchesMembership_ofStatus.2 hx)

theorem Users.Added.sameFor {input : UserInput} {row : User} (ha : Added env input t row t')
    (hx : ¬(FollowUp.ofStatus row.id input.status).Concerns x) : t.SameFor t' x := by
  rw [ha.tables]
  refine sameFor_ofStatus _ (fun p => ⟨Iff.rfl, rfl, rfl⟩) (fun m hne => ⟨?_, ?_⟩) hx
  · simp only [List.mem_append, List.mem_singleton, or_and_right, exists_or, exists_eq_left,
      Ne.symm hne, false_and, or_false]
  · rw [List.mem_append, iff_self_or]
    intro hmem
    obtain ⟨_, _, he⟩ := List.mem_map.1 hmem
    exact (hne (congrArg Assignment.userId he).symm).elim

theorem Users.Updated.sameFor {input : UserInput} (hu : Updated id input t t')
    (hx : ¬(FollowUp.ofStatus id input.status).Concerns x) : t.SameFor t' x := by
  obtain ⟨f, husers, hf⟩ := hu.users
  refine sameFor_ofStatus _ (fun p => ?_) (fun m hne => ⟨?_, ?_⟩) hx
  · rw [hu.frame]
    exact ⟨Iff.rfl, rfl, rfl⟩
  · rw [husers]
    exact exists_enabled_map hf hne
  · rw [hu.mem_assignments]
    constructor
    · exact fun ha => .inl ⟨ha, hne⟩
    · rintro (⟨ha, -⟩ | ha)
      · exact ha
      · obtain ⟨_, _, he⟩ := List.mem_map.1 ha
        exact (hne (congrArg Assignment.userId he).symm).elim

theorem Users.Removed.sameFor (hr : Removed id t t') (hx : ¬(FollowUp.dropUser id).Concerns x) :
    t.SameFor t' x := by
  rw [hr.tables]
  refine sameFor_ofStatus .disabled (fun p => ⟨Iff.rfl, rfl, rfl⟩)
    (fun m hne => ⟨exists_congr fun u => ?_, ?_⟩) hx
  · rw [List.mem_filter, bne_iff_ne]
    exact and_congr_left fun he => (and_iff_left (he.1 ▸ hne)).symm
  · rw [List.mem_filter, bne_iff_ne, and_iff_left hne]

theorem sameFor_withStatus {status : UserStatus}
    (hx : ¬(FollowUp.ofStatus id status).Concerns x) :
    t.SameFor { t with users := t.users.map (Users.withStatus id status) } x :=
  sameFor_ofStatus _ (fun _ => ⟨Iff.rfl, rfl, rfl⟩)
    (fun _ hne => ⟨exists_enabled_map
      (fun _ _ => ⟨Users.withStatus_id, Users.withStatus_status⟩) hne, Iff.rfl⟩) hx

theorem sameFor_calm {f : User → User} (hf : Users.Calm f) (x : Rule) :
    t.SameFor { t with users := t.users.map f } x := by
  cases x with
  | permission p => exact ⟨Iff.rfl, rfl, rfl⟩
  | membership m =>
    refine ⟨?_, Iff.rfl⟩
    simp only [List.mem_map, exists_exists_and_eq_and, (hf _).1, (hf _).2]

/-! ## Every mutation -/

/-- The roles that grant an updated menu granted it before. -/
theorem Menus.Updated.granting_eq {input : MenuInput} {old row : Menu}
    (hu : Updated id input old row t t') : t'.granting id = t.granting id := by
  rw [Store.Tables.granting, hu.frame]
  rfl

/-- A mutation leaves the rows of the rules that its follow-up does not set anew. -/
theorem Mutation.Changes.sameFor {m : Mutation} {a : m.Result} (h : t.Sound used)
    (hf : env.FreshFor used t) (hc : m.Changes env t a t')
    (hx : ¬(m.followUp t t' a).Concerns x) : t.SameFor t' x := by
  cases m with
  | createMenu _ =>
    obtain ⟨_, ha⟩ := hc
    exact ha.sameFor h hf x
  | updateMenu id _ =>
    obtain ⟨_, _, hu⟩ := hc
    rw [Mutation.followUp, hu.granting_eq] at hx
    exact hu.sameFor hx
  | deleteMenu _ => exact Menus.Removed.sameFor hc hx
  | seedMenus _ => exact Menus.Grown.sameFor h hf hc x
  | createRole _ =>
    obtain ⟨_, ha, he⟩ := hc
    rw [Mutation.followUp, he] at hx
    exact ha.sameFor hx
  | updateRole _ _ => exact Roles.Updated.sameFor hc hx
  | deleteRole _ => exact Roles.Removed.sameFor hc hx
  | createUser _ =>
    obtain ⟨_, ha, he⟩ := hc
    rw [Mutation.followUp, he] at hx
    exact ha.sameFor hx
  | updateUser _ _ => exact Users.Updated.sameFor hc hx
  | deleteUser _ => exact Users.Removed.sameFor hc hx
  | updateStatus _ _ =>
    obtain ⟨-, rfl⟩ := hc
    exact sameFor_withStatus hx
  | updatePassword _ _ | changeOwnPassword _ _ _ =>
    obtain ⟨_, hcalm, rfl⟩ := hc
    exact sameFor_calm hcalm x

end AccessAdmin
