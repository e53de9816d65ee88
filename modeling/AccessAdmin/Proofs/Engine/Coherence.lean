import Mathlib.Data.List.Nodup
import AccessAdmin.Policy.Engine

/-!
# Coherent engines

What the calls on the engine do to its rules, and the invariant under which none of them is refused:
the role graph has exactly the memberships as its edges.

* `mem_addPermission`, `mem_removePermissions`, `mem_addMembership`, `memberships_remove`: the rules
  after a call.
* `RoleGraph.Follows`: a graph that follows some memberships.
* `Engine.Coherent`: an engine without repetitions whose graph follows its memberships.
-/

namespace AccessAdmin.Policy

/-! ## The graph -/

namespace RoleGraph

/-- The edges of the graph are the memberships, and it knows all their names. -/
structure Follows (g : RoleGraph) (ms : List Membership) : Prop where
  edges : ∀ user role, (user, role) ∈ g.edges ↔ ⟨user, role⟩ ∈ ms
  nodup : g.edges.Nodup
  users : ∀ m ∈ ms, m.user ∈ g.nodes
  roles : ∀ m ∈ ms, m.role ∈ g.nodes

variable {g : RoleGraph} {ms : List Membership} {user role n : String}

theorem follows_empty : Follows {} [] where
  edges _ _ := by simp only [List.not_mem_nil]
  nodup := List.nodup_nil
  users _ h := nomatch h
  roles _ h := nomatch h

theorem mem_addNode {x : String} : x ∈ (g.addNode n).nodes ↔ x = n ∨ x ∈ g.nodes := by
  unfold addNode
  split
  · rename_i h
    rw [List.contains_iff_mem] at h
    constructor
    · exact .inr
    · rintro (rfl | hx)
      · exact h
      · exact hx
  · exact List.mem_cons

theorem edges_addNode : (g.addNode n).edges = g.edges := by
  unfold addNode
  split <;> rfl

theorem edges_link (h : user ≠ role) : (g.link user role).edges =
    if g.edges.contains (user, role) then g.edges else (user, role) :: g.edges := by
  unfold link
  rw [if_neg h]
  simp only [edges_addNode]
  split
  · rw [edges_addNode, edges_addNode]
  · rfl

theorem mem_nodes_link (h : user ≠ role) {x : String} :
    x ∈ (g.link user role).nodes ↔ x = role ∨ x = user ∨ x ∈ g.nodes := by
  unfold link
  rw [if_neg h]
  simp only
  split <;> simp only [mem_addNode]

/-- A new membership is one more edge. -/
theorem Follows.link (h : g.Follows ms) (hne : user ≠ role) :
    (g.link user role).Follows (ms ++ [⟨user, role⟩]) := by
  have hedge (u r : String) : (u, r) ∈ (g.link user role).edges ↔
      (u, r) ∈ g.edges ∨ (u, r) = (user, role) := by
    rw [edges_link hne]
    split
    · rename_i hc
      rw [List.contains_iff_mem] at hc
      constructor
      · exact .inl
      · rintro (h | h)
        · exact h
        · exact h ▸ hc
    · rw [List.mem_cons, or_comm]
  constructor
  · intro u r
    rw [hedge, h.edges, List.mem_append, List.mem_singleton, Membership.mk.injEq, Prod.mk.injEq]
  · rw [edges_link hne]
    split
    · exact h.nodup
    · rename_i hc
      rw [List.contains_iff_mem] at hc
      exact List.nodup_cons.2 ⟨hc, h.nodup⟩
  · intro m hm
    rw [mem_nodes_link hne]
    rcases List.mem_append.1 hm with hm | hm
    · exact .inr (.inr (h.users m hm))
    · obtain rfl := List.mem_singleton.1 hm
      exact .inr (.inl rfl)
  · intro m hm
    rw [mem_nodes_link hne]
    rcases List.mem_append.1 hm with hm | hm
    · exact .inr (.inr (h.roles m hm))
    · obtain rfl := List.mem_singleton.1 hm
      exact .inl rfl

theorem Follows.foldl {rest : List Membership} (h : g.Follows ms)
    (hrest : ∀ m ∈ rest, m.user ≠ m.role) :
    ((rest.map fun m => (m.user, m.role)).foldl (fun g e => g.link e.1 e.2) g).Follows
      (ms ++ rest) := by
  induction rest generalizing g ms with
  | nil =>
    rw [List.append_nil]
    exact h
  | cons m rest ih =>
    have := ih (h.link (hrest m (.head _))) fun m hm => hrest m (.tail _ hm)
    rw [List.append_assoc, List.singleton_append] at this
    exact this

/-- A rebuilt graph follows the memberships it is built from. -/
theorem follows_ofMemberships (h : ∀ m ∈ ms, m.user ≠ m.role) :
    (ofMemberships (ms.map fun m => (m.user, m.role))).Follows ms :=
  follows_empty.foldl h

end RoleGraph

namespace Engine

variable {e e' : Engine} {s path method user role : String}

/-! ## The rules after a call -/

theorem fieldMatches_iff {filter value : String} (h : filter ≠ "") :
    fieldMatches filter value = true ↔ value = filter := by
  unfold fieldMatches
  rw [Bool.or_eq_true, String.isEmpty_iff, beq_iff_eq, or_iff_right h]

theorem mem_removePermissions (h : s ≠ "") {p : Permission} :
    p ∈ (e.removePermissions s).2.permissions ↔ p ∈ e.permissions ∧ p.subject ≠ s := by
  rw [removePermissions, List.mem_filter, Bool.not_eq_true', ← Bool.not_eq_true, fieldMatches_iff h]

theorem mem_addPermission {b : Bool} (h : e.addPermission s path method = (.ok b, e'))
    {p : Permission} : p ∈ e'.permissions ↔ p ∈ e.permissions ∨ p = ⟨s, path, method⟩ := by
  unfold addPermission at h
  split at h
  · cases h
  · split at h
    · rename_i hc
      obtain ⟨-, rfl⟩ := Prod.mk.inj h
      rw [List.contains_iff_mem] at hc
      constructor
      · exact .inl
      · rintro (hp | rfl)
        · exact hp
        · exact hc
    · obtain ⟨-, rfl⟩ := Prod.mk.inj h
      simp only [List.mem_append, List.mem_singleton]

theorem addPermission_frame (e : Engine) (s path method : String) :
    (e.addPermission s path method).2.memberships = e.memberships ∧
      (e.addPermission s path method).2.graph = e.graph := by
  unfold addPermission
  split
  · exact ⟨rfl, rfl⟩
  · split <;> exact ⟨rfl, rfl⟩

theorem mem_addMembership {b : Bool} (h : e.addMembership user role = (.ok b, e'))
    {m : Membership} : m ∈ e'.memberships ↔ m ∈ e.memberships ∨ m = ⟨user, role⟩ := by
  unfold addMembership at h
  split at h
  · cases h
  · split at h
    · rename_i hc
      obtain ⟨-, rfl⟩ := Prod.mk.inj h
      rw [List.contains_iff_mem] at hc
      constructor
      · exact .inl
      · rintro (hm | rfl)
        · exact hm
        · exact hc
    · obtain ⟨-, rfl⟩ := Prod.mk.inj h
      simp only [List.mem_append, List.mem_singleton]

theorem permissions_addMembership (e : Engine) (user role : String) :
    (e.addMembership user role).2.permissions = e.permissions := by
  unfold addMembership
  split
  · rfl
  · split <;> rfl

/-- The removed memberships are gone, also when the graph could not follow. -/
theorem memberships_remove (e : Engine) (test : Membership → Bool) :
    (e.removeMembershipsWhere test).2.memberships = e.memberships.filter (!test ·) := by
  unfold removeMembershipsWhere
  simp only
  split
  · rename_i hgone
    rw [List.isEmpty_iff, List.filter_eq_nil_iff] at hgone
    symm
    rw [List.filter_eq_self]
    exact fun m hm => by rw [Bool.not_eq_true', Bool.eq_false_iff]; exact hgone m hm
  · split <;> rfl

theorem permissions_remove (e : Engine) (test : Membership → Bool) :
    (e.removeMembershipsWhere test).2.permissions = e.permissions := by
  unfold removeMembershipsWhere
  simp only
  split
  · rfl
  · split <;> rfl

theorem mem_removeMemberships (h : user ≠ "") {m : Membership} :
    m ∈ (e.removeMemberships user).2.memberships ↔ m ∈ e.memberships ∧ m.user ≠ user := by
  rw [removeMemberships, memberships_remove, List.mem_filter, Bool.not_eq_true', ← Bool.not_eq_true,
    fieldMatches_iff h]

theorem mem_removeRoleMemberships (h : role ≠ "") {m : Membership} :
    m ∈ (e.removeRoleMemberships role).2.memberships ↔ m ∈ e.memberships ∧ m.role ≠ role := by
  rw [removeRoleMemberships, memberships_remove, List.mem_filter, Bool.not_eq_true',
    ← Bool.not_eq_true, fieldMatches_iff h]

/-! ## Coherence -/

/-- Neither rules nor memberships are repeated, nobody is a member of itself, and the graph follows
the memberships. -/
structure Coherent (e : Engine) : Prop where
  permissions : e.permissions.Nodup
  memberships : e.memberships.Nodup
  proper : ∀ m ∈ e.memberships, m.user ≠ m.role
  graph : e.graph.Follows e.memberships

theorem coherent_empty : Coherent {} where
  permissions := List.nodup_nil
  memberships := List.nodup_nil
  proper _ h := nomatch h
  graph := RoleGraph.follows_empty

theorem isEmpty_eq_false (h : s ≠ "") : s.isEmpty = false :=
  Bool.eq_false_iff.2 fun he => h (String.isEmpty_iff.1 he)

theorem Coherent.removePermissions (h : e.Coherent) (s : String) :
    (e.removePermissions s).2.Coherent where
  permissions := h.permissions.filter _
  memberships := h.memberships
  proper := h.proper
  graph := h.graph

theorem Coherent.addPermission (h : e.Coherent) (hs : s ≠ "") (hpath : path ≠ "")
    (hmethod : method ≠ "") :
    (∃ b, (e.addPermission s path method).1 = .ok b) ∧
      (e.addPermission s path method).2.Coherent := by
  unfold Engine.addPermission
  rw [isEmpty_eq_false hs, isEmpty_eq_false hpath, isEmpty_eq_false hmethod, if_neg (by decide)]
  split
  · exact ⟨⟨_, rfl⟩, h⟩
  · rename_i hc
    rw [List.contains_iff_mem] at hc
    refine ⟨⟨_, rfl⟩, ?_, h.memberships, h.proper, h.graph⟩
    rw [← List.concat_eq_append]
    exact List.Nodup.concat hc h.permissions

theorem Coherent.addMembership (h : e.Coherent) (huser : user ≠ "") (hrole : role ≠ "")
    (hne : user ≠ role) :
    (∃ b, (e.addMembership user role).1 = .ok b) ∧ (e.addMembership user role).2.Coherent := by
  unfold Engine.addMembership
  rw [isEmpty_eq_false huser, isEmpty_eq_false hrole, if_neg (by decide)]
  split
  · exact ⟨⟨_, rfl⟩, h⟩
  · rename_i hc
    rw [List.contains_iff_mem] at hc
    refine ⟨⟨_, rfl⟩, h.permissions, ?_, ?_, h.graph.link hne⟩
    · rw [← List.concat_eq_append]
      exact List.Nodup.concat hc h.memberships
    · intro m hm
      rcases List.mem_append.1 hm with hm | hm
      · exact h.proper m hm
      · obtain rfl := List.mem_singleton.1 hm
        exact hne

/-- The graph knows the names of all the memberships that are taken off it. -/
theorem unlinkAll_ok {g : RoleGraph} {gone : List Membership}
    (h : ∀ m ∈ gone, m.user ∈ g.nodes ∧ m.role ∈ g.nodes) : (unlinkAll g gone).1 = .ok () := by
  induction gone generalizing g with
  | nil => rfl
  | cons m rest ih =>
    obtain ⟨hu, hr⟩ := h m (.head _)
    have hknown : (g.nodes.contains m.user && g.nodes.contains m.role) = true := by
      rw [Bool.and_eq_true, List.contains_iff_mem, List.contains_iff_mem]
      exact ⟨hu, hr⟩
    rw [unlinkAll, RoleGraph.unlink, if_pos hknown]
    exact ih fun m hm => h m (.tail _ hm)

theorem Coherent.removeMembershipsWhere (h : e.Coherent) (test : Membership → Bool) :
    (∃ b, (e.removeMembershipsWhere test).1 = .ok b) ∧
      (e.removeMembershipsWhere test).2.Coherent := by
  unfold Engine.removeMembershipsWhere
  simp only
  split
  · exact ⟨⟨_, rfl⟩, h⟩
  · have hok : (unlinkAll e.graph (e.memberships.filter test)).1 = .ok () :=
      unlinkAll_ok fun m hm =>
        ⟨h.graph.users m (List.mem_filter.1 hm).1, h.graph.roles m (List.mem_filter.1 hm).1⟩
    have hproper (m : Membership) (hm : m ∈ e.memberships.filter (!test ·)) : m.user ≠ m.role :=
      h.proper m (List.mem_filter.1 hm).1
    split
    · rename_i heq
      rw [heq] at hok
      cases hok
    · exact ⟨⟨_, rfl⟩, h.permissions, h.memberships.filter _, hproper,
        RoleGraph.follows_ofMemberships hproper⟩

end Engine

end AccessAdmin.Policy
