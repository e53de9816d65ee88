import AccessAdmin.Proofs.Engine.Coherence

/-!
# How an engine decides

The look-up of roles is a bounded breadth-first search. Where no role is a member of anything, one
level is enough and the bounds are never met, so a subject reaches itself and the roles it is a
member of. The decision then comes down to one permission that allows the request.

* `RoleGraph.Follows.reaches_iff`: whom a subject reaches.
* `Engine.evaluate_iff`: when an engine whose patterns can all be compiled allows a request.
-/

namespace AccessAdmin.Policy

namespace RoleGraph

variable {g : RoleGraph} {ms : List Membership} {user role goal n : String}

theorem mem_successors : role ∈ g.successors n ↔ (n, role) ∈ g.edges := by
  simp only [successors, List.mem_map, List.mem_filter, beq_iff_eq]
  constructor
  · rintro ⟨⟨_, _⟩, ⟨h, rfl⟩, rfl⟩
    exact h
  · exact fun h => ⟨_, ⟨h, rfl⟩, rfl⟩

/-- Names without edges are looked at one by one. The count of queued names comes down to zero only
with the last of them, so the depth does not grow before. -/
theorem search_leaves {queue seen : List String} {steps depth : Nat}
    (hleaves : ∀ n ∈ queue, g.successors n = []) (hsteps : queue.length ≤ steps)
    (hdepth : depth < maxDepth) :
    g.search goal steps depth queue.length seen queue = true ↔ goal ∈ queue := by
  induction queue generalizing steps depth seen with
  | nil => cases steps <;> simp only [search, Bool.false_eq_true, List.not_mem_nil]
  | cons n rest ih =>
    rw [List.length_cons] at hsteps
    obtain ⟨steps, rfl⟩ : ∃ k, steps = k + 1 := ⟨steps - 1, by omega⟩
    rw [Nat.add_le_add_iff_right] at hsteps
    rw [search, if_neg (Nat.not_le.2 hdepth), hleaves n (.head _)]
    by_cases hn : n = goal
    · rw [if_pos hn, hn]
      simp only [List.mem_cons, true_or]
    · rw [if_neg hn, List.mem_cons, or_iff_right (Ne.symm hn)]
      simp only [List.filter_nil, List.length_nil, List.append_nil, Nat.add_zero, List.length_cons,
        Nat.add_sub_cancel]
      cases rest with
      | nil => cases steps <;> simp only [search, Bool.false_eq_true, List.not_mem_nil]
      | cons m rest =>
        rw [if_neg (List.length_cons ▸ Nat.succ_ne_zero _)]
        exact ih (fun x hx => hleaves x (.tail _ hx)) hsteps hdepth

/-- Where no role is a member of anything, the search from another name finds the roles it is a
member of. -/
theorem Follows.search_iff (h : g.Follows ms) (hflat : ∀ m ∈ ms, ∀ m' ∈ ms, m.role ≠ m'.user)
    (hne : user ≠ goal) :
    g.search goal (g.nodes.length + 2) 0 1 [user] [user] = true ↔ ⟨user, goal⟩ ∈ ms := by
  let fresh := (g.successors user).filter fun r => !([user].contains r)
  have hmem (r : String) : r ∈ fresh ↔ ⟨user, r⟩ ∈ ms ∧ r ≠ user := by
    simp only [fresh, List.mem_filter, mem_successors, h.edges, List.contains_cons,
      List.contains_nil, Bool.or_false, Bool.not_eq_true', beq_eq_false_iff_ne]
  have hleaves (n : String) (hn : n ∈ fresh) : g.successors n = [] := by
    refine List.eq_nil_iff_forall_not_mem.2 fun r hr => ?_
    exact hflat _ ((hmem n).1 hn).1 _ ((h.edges n r).1 (mem_successors.1 hr)) rfl
  -- No name is queued twice, so the known names are enough steps.
  have hnodup : fresh.Nodup := by
    refine List.Nodup.filter _ (List.Nodup.map_on ?_ (h.nodup.filter _))
    intro a ha b hb he
    exact Prod.ext ((beq_iff_eq.1 (List.mem_filter.1 ha).2).trans
      (beq_iff_eq.1 (List.mem_filter.1 hb).2).symm) he
  have hlength : fresh.length ≤ g.nodes.length :=
    hnodup.length_le_of_subset fun n hn => h.roles _ ((hmem n).1 hn).1
  rw [search, if_neg (by decide), if_neg hne]
  simp only [Nat.sub_self, ↓reduceIte, Nat.zero_add, List.nil_append]
  rw [search_leaves hleaves (Nat.le_succ_of_le hlength) (by decide), hmem,
    and_iff_left hne.symm]

/-- A subject reaches itself and the roles it is a member of. -/
theorem Follows.reaches_iff (h : g.Follows ms) (hflat : ∀ m ∈ ms, ∀ m' ∈ ms, m.role ≠ m'.user) :
    g.reaches user role = true ↔ user = role ∨ ⟨user, role⟩ ∈ ms := by
  rw [reaches, Bool.or_eq_true, beq_iff_eq]
  by_cases hne : user = role
  · simp only [hne, true_or]
  · rw [h.search_iff hflat hne]

end RoleGraph

namespace Engine

variable {reads : PathPattern.Reader} {e : Engine} {s path method : String} {ps : List Permission}

/-- A permission allows a request of a subject. -/
def Allows (e : Engine) (reads : PathPattern.Reader) (s path method : String) (p : Permission) :
    Prop :=
  e.graph.reaches s p.subject = true ∧ PathPattern.covers? reads p.path path = some true ∧
    p.method = method

/-- With a pattern that can be compiled, a permission allows a request or does not. -/
theorem permits_eq {p : Permission} (hp : (reads p.path).isSome = true) :
    ∃ b, e.permits reads s path method p = some b ∧ (b = true ↔ e.Allows reads s path method p) := by
  unfold permits Allows PathPattern.covers?
  obtain ⟨x, hx⟩ := Option.isSome_iff_exists.1 hp
  rw [hx]
  split
  · rename_i hreach
    refine ⟨_, rfl, ?_⟩
    simp only [hreach, Option.map_some, Option.some.injEq, true_and, Bool.and_eq_true, beq_iff_eq,
      eq_comm (a := method)]
  · rename_i hreach
    exact ⟨false, rfl, by simp only [Bool.false_eq_true, hreach, false_and]⟩

/-- The order of the permissions does not matter when all their patterns can be compiled. -/
theorem firstMatch_eq (h : ∀ p ∈ ps, ∃ b, e.permits reads s path method p = some b ∧
      (b = true ↔ e.Allows reads s path method p)) :
    ∃ b, e.firstMatch reads s path method ps = some b ∧
      (b = true ↔ ∃ p ∈ ps, e.Allows reads s path method p) := by
  induction ps with
  | nil => exact ⟨false, rfl, by simp only [Bool.false_eq_true, List.not_mem_nil, false_and,
      exists_false]⟩
  | cons p rest ih =>
    obtain ⟨b, hb, hiff⟩ := h p (.head _)
    obtain ⟨b', hb', hiff'⟩ := ih fun q hq => h q (.tail _ hq)
    simp only [firstMatch, hb, List.exists_mem_cons_iff, ← hiff]
    cases b with
    | true => exact ⟨true, rfl, by simp only [true_or]⟩
    | false => exact ⟨b', hb', by rw [hiff']; simp only [Bool.false_eq_true, false_or]⟩

/-- An engine whose patterns can all be compiled answers every request, and allows it if one of its
permissions does. -/
theorem evaluate_iff (path method : String)
    (h : ∀ p ∈ e.permissions, (reads p.path).isSome = true)
    (hanonymous : e.graph.reaches s "" = false) :
    ∃ b, e.evaluate reads s path method = some b ∧
      (b = true ↔ ∃ p ∈ e.permissions, e.Allows reads s path method p) := by
  unfold evaluate
  split
  -- Without any permission the matcher still runs once, on the empty one.
  · rename_i hempty
    rw [List.isEmpty_iff] at hempty
    refine ⟨false, ?_, ?_⟩
    · simp only [firstMatch, permits, hanonymous, Bool.false_eq_true, ↓reduceIte]
    · simp only [hempty, Bool.false_eq_true, List.not_mem_nil, false_and, exists_false]
  · exact firstMatch_eq fun p hp => permits_eq (h p hp)

end Engine

end AccessAdmin.Policy
