import AccessAdmin.Policy.Call
import AccessAdmin.Proofs.Engine.Coherence

/-!
# Engines that calls lead to

What can be said of an engine after any sequence of calls none of which it refused, whoever made
them. Subjects may have been made members of themselves on the way: the role graph leaves such
memberships out. Of the rules themselves every call keeps order, accepted or not: it brings in a rule
that was not there and belongs to somebody, or takes some away.

* `Engine.Obtained`: the engines that accepted calls lead to.
* `Turned`: the rules of one kind before and after a call.
* `Engine.perform_turned`: what every call does to the permissions and to the memberships.
* `Engine.Orderly`: no rule is repeated, and none belongs to the empty name.
* `Engine.Obtained.coherent`: without a membership of a subject in itself the engine is coherent.
-/

namespace AccessAdmin.Policy

/-- Whether a call on the engine was accepted; one that only looks always is. -/
def Call.Accepted : (c : Call) → c.Reply → Prop
  | .addPermission _ _ _, r | .removePermissions _, r | .addMembership _ _, r
  | .removeMemberships _, r | .removeRoleMemberships _, r => ∃ b, r = .ok b
  | .evaluate _ _ _, _ | .permissionsFor _, _ | .membershipsFor _, _ | .snapshot, _ => True

namespace Engine

/-- The engines that sequences of accepted calls lead to, however patterns are read. -/
inductive Obtained : Engine → Prop where
  | empty : Obtained {}
  | call {e : Engine} (reads : PathPattern.Reader) (c : Call) : Obtained e →
      c.Accepted (e.perform reads c).1 → Obtained (e.perform reads c).2

/-- All permissions and memberships belong to somebody. -/
structure Named (e : Engine) : Prop where
  subjects : ∀ p ∈ e.permissions, p.subject ≠ ""
  users : ∀ m ∈ e.memberships, m.user ≠ ""

end Engine

/-! ## Memberships of subjects in themselves -/

/-- Whether a membership is one in somebody else. -/
def Membership.isProper (m : Membership) : Bool := m.user != m.role

theorem Membership.isProper_iff {m : Membership} : m.isProper = true ↔ m.user ≠ m.role := bne_iff_ne

namespace RoleGraph

theorem link_self (g : RoleGraph) (n : String) : g.link n n = g := if_pos rfl

/-- The graph of some memberships is that of the proper ones. -/
theorem ofMemberships_proper (ms : List Membership) :
    ofMemberships (ms.map fun m => (m.user, m.role)) =
      ofMemberships ((ms.filter Membership.isProper).map fun m => (m.user, m.role)) := by
  have hfold (g : RoleGraph) :
      (ms.map fun m => (m.user, m.role)).foldl (fun g e => g.link e.1 e.2) g =
        ((ms.filter Membership.isProper).map fun m => (m.user, m.role)).foldl
          (fun g e => g.link e.1 e.2) g := by
    induction ms generalizing g with
    | nil => rfl
    | cons m rest ih =>
      by_cases hm : m.isProper
      · simp only [List.map_cons, List.foldl_cons, List.filter_cons_of_pos hm, ih]
      · have hself : m.user = m.role := by
          rwa [Membership.isProper_iff, ne_eq, not_not] at hm
        simp only [List.map_cons, List.foldl_cons, List.filter_cons_of_neg hm, hself, link_self, ih]
  exact hfold {}

theorem follows_proper (ms : List Membership) :
    (ofMemberships (ms.map fun m => (m.user, m.role))).Follows (ms.filter Membership.isProper) := by
  rw [ofMemberships_proper]
  exact follows_ofMemberships fun m hm => Membership.isProper_iff.mp (List.mem_filter.mp hm).2

end RoleGraph

/-! ## The rules before and after a call -/

/-- What a call does to the rules of one kind: it brings in one that was not there and belongs to
somebody, or it takes some away. -/
inductive Turned {α : Type} (owner : α → String) (rules : List α) : List α → Prop where
  | added {x : α} : x ∉ rules → owner x ≠ "" → Turned owner rules (rules ++ [x])
  | removed (stays : α → Bool) : Turned owner rules (rules.filter stays)

namespace Turned

variable {α : Type} {owner : α → String} {rules rules' : List α}

/-- Taking nothing away. -/
theorem refl (owner : α → String) (rules : List α) : Turned owner rules rules := by
  have h : Turned owner rules (rules.filter fun _ => true) := .removed _
  rwa [List.filter_true] at h

theorem nodup (h : Turned owner rules rules') (hnodup : rules.Nodup) : rules'.Nodup := by
  cases h with
  | added hnew _ => exact List.concat_eq_append ▸ hnodup.concat hnew
  | removed stays => exact hnodup.filter stays

theorem named (h : Turned owner rules rules') (hnamed : ∀ x ∈ rules, owner x ≠ "") :
    ∀ x ∈ rules', owner x ≠ "" := by
  intro x hx
  cases h with
  | added _ howner =>
    rcases List.mem_append.mp hx with hx | hx
    · exact hnamed x hx
    · exact List.mem_singleton.mp hx ▸ howner
  | removed stays => exact hnamed x (List.mem_filter.mp hx).1

/-- A rule with all its parts comes in unless it was there; one that lacks a part does not. -/
theorem insert {ρ : Type} [DecidableEq α] (rulesOf : Engine → List α) {e e' : Engine} {x : α}
    {lacking : Bool} {refused known new : ρ} (hnamed : lacking = false → owner x ≠ "")
    (hadd : rulesOf e' = rulesOf e ++ [x]) :
    Turned owner (rulesOf e) (rulesOf (if lacking then (refused, e)
      else if (rulesOf e).contains x then (known, e) else (new, e')).2) := by
  split
  · exact refl owner _
  · rename_i hfull
    split
    · exact refl owner _
    · rename_i hnew
      rw [hadd]
      exact added (mt List.contains_iff_mem.mpr hnew) (hnamed (Bool.eq_false_iff.mpr hfull))

end Turned

namespace Engine

variable {e e' : Engine} {b : Bool}

/-- What a call does to the permissions and to the memberships, one case for each call. -/
theorem perform_turned (e : Engine) (reads : PathPattern.Reader) (c : Call) :
    Turned Permission.subject e.permissions (e.perform reads c).2.permissions ∧
      Turned Membership.user e.memberships (e.perform reads c).2.memberships := by
  cases c with
  | addPermission s path method =>
    constructor
    · refine Turned.insert permissions (x := ⟨s, path, method⟩) (fun hfull => ?_) rfl
      rintro rfl
      cases hfull
    · show Turned _ _ (e.addPermission s path method).2.memberships
      rw [(addPermission_frame e s path method).1]
      exact .refl _ _
  | removePermissions s => exact ⟨.removed _, .refl _ _⟩
  | addMembership user role =>
    constructor
    · show Turned _ _ (e.addMembership user role).2.permissions
      rw [permissions_addMembership]
      exact .refl _ _
    · refine Turned.insert memberships (x := ⟨user, role⟩) (fun hfull => ?_) rfl
      rintro rfl
      cases hfull
  | removeMemberships _ | removeRoleMemberships _ =>
    exact ⟨permissions_remove e _ ▸ .refl _ _, memberships_remove e _ ▸ .removed _⟩
  | evaluate _ _ _ | permissionsFor _ | membershipsFor _ | snapshot =>
    exact ⟨.refl _ _, .refl _ _⟩

/-- No rule is repeated, and every rule belongs to somebody. -/
structure Orderly (e : Engine) : Prop where
  permissions : e.permissions.Nodup
  memberships : e.memberships.Nodup
  named : e.Named

theorem orderly_empty : Orderly {} where
  permissions := List.nodup_nil
  memberships := List.nodup_nil
  named := ⟨fun _ h => (nomatch h), fun _ h => (nomatch h)⟩

/-- Every call keeps order, accepted or not. -/
theorem Orderly.perform (h : e.Orderly) (reads : PathPattern.Reader) (c : Call) :
    (e.perform reads c).2.Orderly := by
  obtain ⟨hpermissions, hmemberships⟩ := e.perform_turned reads c
  exact ⟨hpermissions.nodup h.permissions, hmemberships.nodup h.memberships,
    hpermissions.named h.named.subjects, hmemberships.named h.named.users⟩

/-! ## Accepted calls -/

theorem Obtained.orderly (h : e.Obtained) : e.Orderly := by
  induction h with
  | empty => exact orderly_empty
  | call reads c _ _ ih => exact ih.perform reads c

/-- The graph follows the memberships of subjects in others. -/
def GraphFollows (e : Engine) : Prop := e.graph.Follows (e.memberships.filter Membership.isProper)

theorem GraphFollows.addMembership (h : e.GraphFollows) (user role : String) :
    (e.addMembership user role).2.GraphFollows := by
  unfold Engine.addMembership
  split
  · exact h
  · split
    · exact h
    · show (e.graph.link user role).Follows ((e.memberships ++ [(⟨user, role⟩ : Membership)]).filter _)
      rw [List.filter_append]
      by_cases hself : user = role
      · subst hself
        rw [RoleGraph.link_self, List.filter_cons_of_neg (by simp [Membership.isProper]),
          List.filter_nil, List.append_nil]
        exact h
      · rw [List.filter_cons_of_pos (Membership.isProper_iff.mpr hself), List.filter_nil]
        exact RoleGraph.Follows.link h hself

theorem GraphFollows.removeMembershipsWhere (h : e.GraphFollows) {test : Membership → Bool}
    (hc : e.removeMembershipsWhere test = (.ok b, e')) : e'.GraphFollows := by
  unfold Engine.removeMembershipsWhere at hc
  simp only at hc
  split at hc
  · obtain ⟨-, rfl⟩ := Prod.mk.inj hc
    exact h
  · split at hc
    · cases hc
    · obtain ⟨-, rfl⟩ := Prod.mk.inj hc
      exact RoleGraph.follows_proper _

theorem Obtained.graphFollows (h : e.Obtained) : e.GraphFollows := by
  induction h with
  | empty => exact RoleGraph.follows_empty
  | @call e reads c _ hok ih =>
    cases c with
    | addPermission s path method =>
      obtain ⟨hmemberships, hgraph⟩ := addPermission_frame e s path method
      show (e.addPermission s path method).2.GraphFollows
      rw [GraphFollows, hmemberships, hgraph]
      exact ih
    | addMembership user role => exact ih.addMembership user role
    | removeMemberships _ | removeRoleMemberships _ =>
      obtain ⟨b, hb⟩ := hok
      exact ih.removeMembershipsWhere (Prod.ext hb rfl)
    | removePermissions _ | evaluate _ _ _ | permissionsFor _ | membershipsFor _ | snapshot =>
      exact ih

/-- Accepted calls that leave nobody a member of itself lead to a coherent engine. -/
theorem Obtained.coherent (h : e.Obtained) (hself : ∀ m ∈ e.memberships, m.user ≠ m.role) :
    e.Coherent where
  permissions := h.orderly.permissions
  memberships := h.orderly.memberships
  proper := hself
  graph := by
    have hall : e.memberships.filter Membership.isProper = e.memberships :=
      List.filter_eq_self.mpr fun m hm => Membership.isProper_iff.mpr (hself m hm)
    exact hall ▸ h.graphFollows

end Engine

end AccessAdmin.Policy
