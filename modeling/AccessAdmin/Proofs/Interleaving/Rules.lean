import AccessAdmin.Policy.Call
import AccessAdmin.Proofs.Engine.Obtained
import AccessAdmin.Proofs.Projecting.Entitlements

/-!
# Single rules

What concurrent projections do is followed rule by rule: a call on the engine touches a rule or
leaves it as it is, and what the tables come to for a rule depends on some of their rows only.

* `Policy.Rule`: a permission or a membership.
* `Policy.Call.touches`, `Policy.Call.leaves`: what a call does to a rule.
* `Store.Tables.SameFor`: tables that have the same rows for a rule.
-/

namespace AccessAdmin

namespace Policy

/-- A rule that an engine may hold. -/
inductive Rule where
  | permission (p : Permission)
  | membership (m : Membership)
deriving DecidableEq

/-- The engine holds a rule. -/
def Engine.Holds (e : Engine) : Rule → Prop
  | .permission p => p ∈ e.permissions
  | .membership m => m ∈ e.memberships

end Policy

/-- The tables come to a rule. -/
def Store.Tables.Warrants (t : Tables) : Policy.Rule → Prop
  | .permission p => t.Entitles p
  | .membership m => t.Enrolls m

namespace Policy

theorem agrees_iff {t : Store.Tables} {e : Engine} :
    Agrees t e ↔ ∀ x, e.Holds x ↔ t.Warrants x := by
  constructor
  · rintro h (p | m)
    · exact h.permissions p
    · exact h.memberships m
  · exact fun h => ⟨fun p => h (.permission p), fun m => h (.membership m)⟩

/-! ## Calls -/

namespace Call

/-- Whether a call adds a rule or may remove it. -/
def touches : Call → Rule → Bool
  | addPermission subject path method, .permission p => p == ⟨subject, path, method⟩
  | removePermissions subject, .permission p => Engine.fieldMatches subject p.subject
  | addMembership user role, .membership m => m == ⟨user, role⟩
  | removeMemberships user, .membership m => Engine.fieldMatches user m.user
  | removeRoleMemberships role, .membership m => Engine.fieldMatches role m.role
  | _, _ => false

/-- Whether a call adds what it touches. -/
def adds : Call → Bool
  | addPermission _ _ _ | addMembership _ _ => true
  | _ => false

/-- Whether a rule is held after an accepted call, if it was held before as `h` says. -/
def leaves (c : Call) (x : Rule) (h : Prop) : Prop :=
  (c.touches x = true ∧ c.adds = true) ∨ (c.touches x = false ∧ h)

end Call

namespace Engine

variable {reads : PathPattern.Reader} {e : Engine} {x : Rule}

/-- Membership in the engine after the removal of memberships by a test. -/
theorem holds_removeMembershipsWhere {test : Membership → Bool} {c : Call}
    (hp : ∀ p, c.touches (.permission p) = false)
    (hm : ∀ m, c.touches (.membership m) = test m) :
    (e.removeMembershipsWhere test).2.Holds x ↔ e.Holds x ∧ c.touches x = false := by
  cases x with
  | permission p => simp only [Holds, permissions_remove, hp, and_true]
  | membership m =>
    simp only [Holds, memberships_remove, List.mem_filter, hm, Bool.not_eq_true']

/-- A call that adds nothing takes away what it touches. -/
theorem holds_perform_of_not_adds {c : Call} (hc : c.adds = false) :
    (e.perform reads c).2.Holds x ↔ e.Holds x ∧ c.touches x = false := by
  cases c with
  | addPermission _ _ _ | addMembership _ _ => cases hc
  | removePermissions s =>
    cases x with
    | permission p =>
      show p ∈ e.permissions.filter _ ↔ _
      rw [List.mem_filter, Bool.not_eq_true']
      rfl
    | membership m => exact (and_iff_left rfl).symm
  | removeMemberships user =>
    exact holds_removeMembershipsWhere (c := .removeMemberships user) (fun _ => rfl) fun _ => rfl
  | removeRoleMemberships role =>
    exact holds_removeMembershipsWhere (c := .removeRoleMemberships role) (fun _ => rfl)
      fun _ => rfl
  | evaluate _ _ _ | permissionsFor _ | membershipsFor _ | snapshot =>
    exact (and_iff_left rfl).symm

/-- A call that adds something does so if it is accepted. -/
theorem holds_perform_of_adds {c : Call} (hc : c.adds = true) :
    (e.perform reads c).2.Holds x ↔
      e.Holds x ∨ (c.Accepted (e.perform reads c).1 ∧ c.touches x = true) := by
  cases c with
  | addPermission s path method =>
    show (e.addPermission s path method).2.Holds x ↔
      e.Holds x ∨ ((∃ b, (e.addPermission s path method).1 = .ok b) ∧ _)
    rcases hadd : e.addPermission s path method with ⟨_ | b, e'⟩
    · have he : e' = e := by
        unfold addPermission at hadd
        split at hadd
        · exact (Prod.mk.inj hadd).2.symm
        · split at hadd <;> cases hadd
      simp only [he, reduceCtorEq, exists_false, false_and, or_false]
    · cases x with
      | permission p =>
        simp only [Holds, mem_addPermission hadd, Call.touches, beq_iff_eq, Except.ok.injEq,
          exists_eq', true_and]
      | membership m =>
        have hframe : e'.memberships = e.memberships :=
          (congrArg (·.2.memberships) hadd).symm.trans (addPermission_frame e s path method).1
        simp only [Holds, hframe, Call.touches, Bool.false_eq_true, and_false, or_false]
  | addMembership user role =>
    show (e.addMembership user role).2.Holds x ↔
      e.Holds x ∨ ((∃ b, (e.addMembership user role).1 = .ok b) ∧ _)
    rcases hadd : e.addMembership user role with ⟨_ | b, e'⟩
    · have he : e' = e := by
        unfold addMembership at hadd
        split at hadd
        · exact (Prod.mk.inj hadd).2.symm
        · split at hadd <;> cases hadd
      simp only [he, reduceCtorEq, exists_false, false_and, or_false]
    · cases x with
      | permission p =>
        have hframe : e'.permissions = e.permissions :=
          (congrArg (·.2.permissions) hadd).symm.trans (permissions_addMembership e user role)
        simp only [Holds, hframe, Call.touches, Bool.false_eq_true, and_false, or_false]
      | membership m =>
        simp only [Holds, mem_addMembership hadd, Call.touches, beq_iff_eq, Except.ok.injEq,
          exists_eq', true_and]
  | removePermissions _ | removeMemberships _ | removeRoleMemberships _ | evaluate _ _ _
  | permissionsFor _ | membershipsFor _ | snapshot => cases hc

/-- A call leaves the rules that it does not touch. -/
theorem holds_untouched {c : Call} (h : c.touches x = false) :
    (e.perform reads c).2.Holds x ↔ e.Holds x := by
  cases hc : c.adds with
  | true =>
    rw [holds_perform_of_adds hc, h]
    simp only [Bool.false_eq_true, and_false, or_false]
  | false => rw [holds_perform_of_not_adds hc, and_iff_left h]

/-- What an accepted call does to a rule. -/
theorem holds_perform {c : Call} (ha : c.Accepted (e.perform reads c).1) :
    (e.perform reads c).2.Holds x ↔ c.leaves x (e.Holds x) := by
  rw [Call.leaves]
  cases ht : c.touches x with
  | false => simp only [Bool.false_eq_true, false_and, true_and, false_or, holds_untouched ht]
  | true =>
    cases hc : c.adds with
    | true => simp only [holds_perform_of_adds hc, ha, ht, and_self, or_true, true_or]
    | false =>
      simp only [holds_perform_of_not_adds hc, ht, Bool.true_eq_false, Bool.false_eq_true, and_false,
        false_and, or_self]

end Engine

end Policy

/-! ## Rows -/

namespace Store.Tables

/-- The grants of a role. -/
def grantsOf (t : Tables) (id : String) : Set Grant :=
  {g | g ∈ t.roleMenus ∧ g.roleId = id}

/-- The resources of the menus that a role has grants of. -/
def resourcesOf (t : Tables) (id : String) : Set MenuResource :=
  {x | x ∈ t.menuResources ∧ ∃ g ∈ t.grantsOf id, g.menuId = x.menuId}

/-- The rows that tell of a rule are the same in two tables. -/
def SameFor (t t' : Tables) : Policy.Rule → Prop
  | .permission p =>
    ((∃ r ∈ t.roles, r.id = p.subject) ↔ ∃ r ∈ t'.roles, r.id = p.subject) ∧
      t.grantsOf p.subject = t'.grantsOf p.subject ∧
      t.resourcesOf p.subject = t'.resourcesOf p.subject
  | .membership m =>
    ((∃ u ∈ t.users, u.id = m.user ∧ u.status = .enabled) ↔
        ∃ u ∈ t'.users, u.id = m.user ∧ u.status = .enabled) ∧
      (⟨m.user, m.role⟩ ∈ t.userRoles ↔ ⟨m.user, m.role⟩ ∈ t'.userRoles)

variable {t t' t'' : Tables} {x : Policy.Rule}

theorem SameFor.refl (t : Tables) (x : Policy.Rule) : t.SameFor t x := by
  cases x with
  | permission p => exact ⟨Iff.rfl, rfl, rfl⟩
  | membership m => exact ⟨Iff.rfl, Iff.rfl⟩

theorem SameFor.trans (h : t.SameFor t' x) (h' : t'.SameFor t'' x) : t.SameFor t'' x := by
  cases x with
  | permission p =>
    exact ⟨h.1.trans h'.1, h.2.1.trans h'.2.1, h.2.2.trans h'.2.2⟩
  | membership m => exact ⟨h.1.trans h'.1, h.2.trans h'.2⟩

theorem SameFor.symm (h : t.SameFor t' x) : t'.SameFor t x := by
  cases x with
  | permission p => exact ⟨h.1.symm, h.2.1.symm, h.2.2.symm⟩
  | membership m => exact ⟨h.1.symm, h.2.symm⟩

/-- A permission comes from a grant and a resource of the subject. -/
theorem yields_iff {p : Policy.Permission} :
    (∃ g ∈ t.roleMenus, ∃ x ∈ t.menuResources, g.Yields x p) ↔
      ∃ g ∈ t.grantsOf p.subject, ∃ x ∈ t.resourcesOf p.subject, g.Yields x p := by
  constructor
  · rintro ⟨g, hg, x, hx, hy⟩
    exact ⟨g, ⟨hg, hy.subject⟩, x, ⟨hx, g, ⟨hg, hy.subject⟩, hy.menu.symm⟩, hy⟩
  · rintro ⟨g, hg, x, hx, hy⟩
    exact ⟨g, hg.1, x, hx.1, hy⟩

/-- Tables with the same rows for a rule come to it alike. -/
theorem SameFor.warrants_iff (h : t.SameFor t' x) : t.Warrants x ↔ t'.Warrants x := by
  cases x with
  | permission p =>
    show t.Entitles p ↔ t'.Entitles p
    rw [Entitles, Entitles, yields_iff, yields_iff, h.2.1, h.2.2]
    exact and_congr_left fun _ => h.1
  | membership m => exact and_congr h.1 h.2

end Store.Tables

end AccessAdmin
