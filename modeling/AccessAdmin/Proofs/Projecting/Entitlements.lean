import AccessAdmin.Proofs.Changes.Sound
import AccessAdmin.Proofs.Engine.Coherence
import AccessAdmin.Proofs.Engine.Listings

/-!
# What the tables come to

The rules that the engine should hold follow from the tables alone: the permissions that the grants
of the stored roles come to, and the memberships that the assignments of the enabled users come to.

* `Store.Tables.Entitles`, `Store.Tables.Enrolls`: one permission, one membership.
* `Store.Tables.projection`: all of them, as a snapshot lists them.
* `Engine.Coherent.snapshot_eq`: when the snapshot of an engine is the projection.
-/

namespace AccessAdmin

/-- A grant and a resource of its menu come to a permission. -/
structure Grant.Yields (g : Grant) (x : MenuResource) (p : Policy.Permission) : Prop where
  subject : g.roleId = p.subject
  menu : x.menuId = g.menuId
  code : x.code ∈ g.resources
  path : x.path = p.path
  method : x.method = p.method
  enforceable : x.method ≠ "" ∧ x.path ≠ ""

namespace Store.Tables

/-- A stored role has a grant that comes to the permission. -/
def Entitles (t : Tables) (p : Policy.Permission) : Prop :=
  (∃ r ∈ t.roles, r.id = p.subject) ∧ ∃ g ∈ t.roleMenus, ∃ x ∈ t.menuResources, g.Yields x p

/-- A stored user is enabled and has the role assigned. -/
def Enrolls (t : Tables) (m : Policy.Membership) : Prop :=
  (∃ u ∈ t.users, u.id = m.user ∧ u.status = .enabled) ∧ ⟨m.user, m.role⟩ ∈ t.userRoles

/-- The permissions that the grants of the stored roles come to. -/
def permissions (t : Tables) : List Policy.Permission :=
  t.roles.flatMap fun r =>
    (t.roleMenus.filter (·.roleId == r.id)).flatMap fun g =>
      (t.menuResources.filter fun x =>
        x.menuId == g.menuId && g.resources.contains x.code && x.isEnforceable).map
          fun x => ⟨r.id, x.path, x.method⟩

/-- The memberships that the assignments of the enabled users come to. -/
def memberships (t : Tables) : List Policy.Membership :=
  (t.users.filter (·.status == .enabled)).flatMap fun u =>
    (t.userRoles.filter (·.userId == u.id)).map fun a => ⟨u.id, a.roleId⟩

/-- What the tables come to, as a snapshot lists it. -/
def projection (t : Tables) : Policy.Snapshot :=
  ⟨sortedDistinct Policy.Permission.listedBefore t.permissions,
    sortedDistinct Policy.Membership.listedBefore t.memberships⟩

end Store.Tables

theorem MenuResource.isEnforceable_iff {x : MenuResource} :
    x.isEnforceable = true ↔ x.method ≠ "" ∧ x.path ≠ "" := by
  simp only [MenuResource.isEnforceable, Bool.and_eq_true, Bool.not_eq_true', ← Bool.not_eq_true,
    String.isEmpty_iff, ne_eq]

namespace Store.Tables

variable {t : Tables} {used : List String}

theorem mem_permissions {p : Policy.Permission} : p ∈ t.permissions ↔ t.Entitles p := by
  simp only [permissions, List.mem_flatMap, List.mem_map, List.mem_filter, Bool.and_eq_true,
    beq_iff_eq, List.contains_iff_mem, MenuResource.isEnforceable_iff]
  constructor
  · rintro ⟨r, hr, g, ⟨hg, hrole⟩, x, ⟨hx, ⟨hmenu, hcode⟩, henf⟩, rfl⟩
    exact ⟨⟨r, hr, rfl⟩, g, hg, x, hx, hrole, hmenu, hcode, rfl, rfl, henf⟩
  · rintro ⟨⟨r, hr, hsub⟩, g, hg, x, hx, hy⟩
    refine ⟨r, hr, g, ⟨hg, hy.subject.trans hsub.symm⟩, x,
      ⟨hx, ⟨hy.menu, hy.code⟩, hy.enforceable⟩, ?_⟩
    rw [hsub, hy.path, hy.method]

theorem mem_memberships {m : Policy.Membership} : m ∈ t.memberships ↔ t.Enrolls m := by
  simp only [memberships, List.mem_flatMap, List.mem_map, List.mem_filter, beq_iff_eq]
  constructor
  · rintro ⟨u, ⟨hu, hstatus⟩, a, ⟨ha, huser⟩, rfl⟩
    refine ⟨⟨u, hu, rfl, hstatus⟩, ?_⟩
    rw [← huser]
    exact ha
  · rintro ⟨⟨u, hu, hid, hstatus⟩, ha⟩
    exact ⟨u, ⟨hu, hstatus⟩, _, ⟨ha, hid.symm⟩, by rw [hid]⟩

/-- Whatever is granted is granted to a stored role. -/
theorem Sound.entitles_iff (h : t.Sound used) {p : Policy.Permission} :
    t.Entitles p ↔ ∃ g ∈ t.roleMenus, ∃ x ∈ t.menuResources, g.Yields x p := by
  refine and_iff_right_of_imp ?_
  rintro ⟨g, hg, x, -, hy⟩
  rw [← hy.subject]
  exact List.mem_map.1 (h.granted g hg).1

end Store.Tables

/-! ## Snapshots -/

theorem nodup_eraseDups {α : Type} [DecidableEq α] : ∀ xs : List α, xs.eraseDups.Nodup
  | [] => List.nodup_nil
  | a :: as => by
    rw [List.eraseDups_cons]
    refine List.nodup_cons.2 ⟨fun h => ?_, nodup_eraseDups _⟩
    have hself := (List.mem_filter.1 (List.mem_eraseDups.1 h)).2
    rw [BEq.rfl] at hself
    cases hself
termination_by xs => xs.length
decreasing_by exact Nat.lt_succ_of_le (List.length_filter_le _ _)

/-- An order that comes from a comparison sorts every set of rows in one way only. -/
theorem mergeSort_eq_sortedDistinct {α : Type} [DecidableEq α] {cmp : α → α → Ordering}
    [Std.TransCmp cmp] [Std.LawfulEqCmp cmp] {xs ys : List α} (hxs : xs.Nodup)
    (hmem : ∀ x, x ∈ xs ↔ x ∈ ys) :
    xs.mergeSort (fun a b => (cmp a b).isLE) = sortedDistinct (fun a b => (cmp a b).isLE) ys := by
  refine eq_of_sorted_perm (pairwise_mergeSort_isLE _) (pairwise_mergeSort_isLE _) ?_
  refine (List.mergeSort_perm _ _).trans (.trans ?_ (List.mergeSort_perm _ _).symm)
  exact (List.perm_ext_iff_of_nodup hxs (nodup_eraseDups _)).2 fun x => by
    rw [hmem, List.mem_eraseDups]

namespace Policy

/-- The engine holds exactly what the tables come to. -/
structure Agrees (t : Store.Tables) (e : Engine) : Prop where
  permissions : ∀ p, p ∈ e.permissions ↔ t.Entitles p
  memberships : ∀ m, m ∈ e.memberships ↔ t.Enrolls m

/-- An engine without repetitions that holds what the tables come to lists their projection. -/
theorem Agrees.snapshot_eq {t : Store.Tables} {e : Engine} (h : Agrees t e)
    (hps : e.permissions.Nodup) (hms : e.memberships.Nodup) : e.snapshot = t.projection := by
  have hpermissions (p : Permission) : p ∈ e.permissions ↔ p ∈ t.permissions :=
    (h.permissions p).trans Store.Tables.mem_permissions.symm
  have hmemberships (m : Membership) : m ∈ e.memberships ↔ m ∈ t.memberships :=
    (h.memberships m).trans Store.Tables.mem_memberships.symm
  rw [Engine.snapshot, Store.Tables.projection, Permission.listedBefore_eq,
    Membership.listedBefore_eq, mergeSort_eq_sortedDistinct hps hpermissions,
    mergeSort_eq_sortedDistinct hms hmemberships]

/-- An engine whose snapshot is the projection of the tables agrees with them. -/
theorem agrees_of_snapshot {t : Store.Tables} {e : Engine}
    (h : e.snapshot = t.projection) : Agrees t e where
  permissions p := by
    have hps : p ∈ e.snapshot.permissions ↔ p ∈ t.projection.permissions := by rw [h]
    rw [← Store.Tables.mem_permissions]
    simpa only [Engine.snapshot, Store.Tables.projection, sortedDistinct, List.mem_mergeSort,
      List.mem_eraseDups] using hps
  memberships m := by
    have hms : m ∈ e.snapshot.memberships ↔ m ∈ t.projection.memberships := by rw [h]
    rw [← Store.Tables.mem_memberships]
    simpa only [Engine.snapshot, Store.Tables.projection, sortedDistinct, List.mem_mergeSort,
      List.mem_eraseDups] using hms

theorem Engine.Coherent.snapshot_eq {t : Store.Tables} {e : Engine} (he : e.Coherent)
    (h : Agrees t e) : e.snapshot = t.projection :=
  h.snapshot_eq he.permissions he.memberships

end Policy

end AccessAdmin
