import AccessAdmin.Proofs.Engine.Stranded
import AccessAdmin.Proofs.Interleaving.Rules

/-!
# Engines that refuse nothing that makes sense

An engine in which nobody is listed as a member of itself takes off what it lists, and takes in
every rule that has its parts, whatever calls led to it and whether it refused some of them. Its
graph may still hold edges of memberships that are not listed any more; it need not be coherent.

* `Engine.Obliging`: nobody is listed as a member of itself.
* `Obliging.removeMemberships`, `Obliging.addMembership`: calls that are not refused.
-/

namespace AccessAdmin.Policy

namespace Engine

variable {e : Engine} {stranded : List Membership} {s path method user role : String}

theorem Called.orderly (h : e.Called stranded) : e.Orderly := by
  induction h with
  | new => exact orderly_empty
  | call reads c _ ih => exact ih.perform reads c

/-- Calls led to the engine, and it lists nobody as a member of itself. -/
structure Obliging (e : Engine) : Prop where
  called : ∃ stranded, e.Called stranded
  proper : ∀ m ∈ e.memberships, m.user ≠ m.role

namespace Obliging

theorem orderly (h : e.Obliging) : e.Orderly := by
  obtain ⟨_, hcalled⟩ := h.called
  exact hcalled.orderly

/-- Whatever a call is answered, the engine stays obliging if the call lists nobody as a member of
itself. -/
theorem perform (h : e.Obliging) (reads : PathPattern.Reader) (c : Call)
    (hc : ∀ m ∈ (e.perform reads c).2.memberships, m ∈ e.memberships ∨ m.user ≠ m.role) :
    (e.perform reads c).2.Obliging where
  called := by
    obtain ⟨_, hcalled⟩ := h.called
    exact ⟨_, hcalled.call reads c⟩
  proper m hm := (hc m hm).elim (h.proper m) id

theorem removePermissions (h : e.Obliging) (s : String) :
    (∃ b, (e.removePermissions s).1 = .ok b) ∧ (e.removePermissions s).2.Obliging :=
  ⟨⟨_, rfl⟩, h.perform PathPattern.reader (.removePermissions s) fun _ hm => .inl hm⟩

theorem addPermission (h : e.Obliging) (hs : s ≠ "") (hpath : path ≠ "") (hmethod : method ≠ "") :
    (∃ b, (e.addPermission s path method).1 = .ok b) ∧
      (e.addPermission s path method).2.Obliging := by
  constructor
  · unfold Engine.addPermission
    rw [isEmpty_eq_false hs, isEmpty_eq_false hpath, isEmpty_eq_false hmethod, if_neg (by decide)]
    split <;> exact ⟨_, rfl⟩
  · refine h.perform PathPattern.reader (.addPermission s path method) fun m hm => .inl ?_
    exact (addPermission_frame e s path method).1 ▸ hm

theorem addMembership (h : e.Obliging) (huser : user ≠ "") (hrole : role ≠ "")
    (hne : user ≠ role) :
    (∃ b, (e.addMembership user role).1 = .ok b) ∧ (e.addMembership user role).2.Obliging := by
  obtain ⟨b, hb⟩ : ∃ b, (e.addMembership user role).1 = .ok b := by
    unfold Engine.addMembership
    rw [isEmpty_eq_false huser, isEmpty_eq_false hrole, if_neg (by decide)]
    split <;> exact ⟨_, rfl⟩
  refine ⟨⟨b, hb⟩, h.perform PathPattern.reader (.addMembership user role) fun m hm => ?_⟩
  refine ((mem_addMembership (Prod.ext hb rfl)).mp hm).imp_right ?_
  rintro rfl
  exact hne

/-- The graph knows the names of all that is listed, so it can follow every removal. -/
theorem removeMemberships (h : e.Obliging) (user : String) :
    (∃ b, (e.removeMemberships user).1 = .ok b) ∧ (e.removeMemberships user).2.Obliging := by
  constructor
  · obtain ⟨_, hcalled⟩ := h.called
    have hok : (unlinkAll e.graph (e.memberships.filter (fieldMatches user ·.user))).1 = .ok () :=
      unlinkAll_ok fun m hm =>
        have hlisted := (List.mem_filter.mp hm).1
        hcalled.rooted.known m hlisted (h.proper m hlisted)
    obtain hr | ⟨err, g, heq, -⟩ | hr :=
      removeMembershipsWhere_cases e (fieldMatches user ·.user)
    · exact ⟨false, congrArg Prod.fst hr⟩
    · rw [heq] at hok
      cases hok
    · exact ⟨true, congrArg Prod.fst hr⟩
  · refine h.perform PathPattern.reader (.removeMemberships user) fun m hm => .inl ?_
    have hleft := memberships_remove e (fieldMatches user ·.user)
    exact (List.mem_filter.mp (hleft ▸ hm)).1

end Obliging

end Engine

end AccessAdmin.Policy
