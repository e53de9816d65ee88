import Mathlib.Logic.Relation
import AccessAdmin.Policy.Call
import AccessAdmin.Policy.PatternReader
import AccessAdmin.Proofs.Engine.Decision
import AccessAdmin.Proofs.Engine.Obtained

/-!
# Nothing is allowed that the rules do not show

What can be said of the decisions of an engine after any sequence of calls, whoever made them and
whether the engine refused them or not. Memberships are kept twice, in the list that a snapshot
shows and in the role graph that decides. A removal that is refused has already shortened the list,
and the graph is not rebuilt. With a filter value nothing comes of it: it is refused only for the
membership of a name in itself, which the graph never held. Without one, the edges of everything
that was listed may be left over, and they stay until a later removal goes through.

* `Engine.Called`: the engines that calls lead to, with the memberships that are left over.
* `Engine.Rooted`: every edge of the graph is a membership that is listed or left over.
* `Engine.Called.evaluate_sound`: what is allowed rests on a permission of the snapshot.
* `stranded_edge_decides`: the edges that are left over do decide.
-/

namespace AccessAdmin.Policy

/-- A name is another or inherits from it along some memberships. -/
def Inherits (ms : List Membership) : String → String → Prop :=
  Relation.ReflTransGen fun user role => ⟨user, role⟩ ∈ ms

/-! ## Searching -/

namespace RoleGraph

variable {g : RoleGraph} {goal user role : String}

/-- A name that the search finds is reached along edges from one that was queued. -/
theorem search_sound {steps depth left : Nat} {seen queue : List String}
    (h : g.search goal steps depth left seen queue = true) :
    ∃ n ∈ queue, Relation.ReflTransGen (fun a b => (a, b) ∈ g.edges) n goal := by
  induction steps generalizing depth left seen queue with
  | zero => simp only [search, Bool.false_eq_true] at h
  | succ steps ih =>
    cases queue with
    | nil => simp only [search, Bool.false_eq_true] at h
    | cons n rest =>
      rw [search] at h
      split at h
      · cases h
      · split at h
        · rename_i hn
          exact ⟨n, .head _, hn ▸ .refl⟩
        · obtain ⟨m, hm, hreach⟩ := ih h
          rcases List.mem_append.mp hm with hm | hm
          · exact ⟨m, .tail _ hm, hreach⟩
          · exact ⟨n, .head _, hreach.head (mem_successors.mp (List.mem_filter.mp hm).1)⟩

/-- Whom a subject reaches it reaches along edges. -/
theorem reaches_sound (h : g.reaches user role = true) :
    Relation.ReflTransGen (fun a b => (a, b) ∈ g.edges) user role := by
  rw [reaches, Bool.or_eq_true, beq_iff_eq] at h
  rcases h with rfl | h
  · exact .refl
  · obtain ⟨n, hn, hreach⟩ := search_sound h
    obtain rfl := List.mem_singleton.mp hn
    exact hreach

/-! ## Linking -/

/-- A membership is at most one more edge, and none if it is one of a name in itself. -/
theorem of_mem_link {u r : String} (h : (u, r) ∈ (g.link user role).edges) :
    (u, r) ∈ g.edges ∨ user ≠ role ∧ u = user ∧ r = role := by
  by_cases hself : user = role
  · subst hself
    exact .inl (link_self g user ▸ h)
  · rw [edges_link hself] at h
    split at h
    · exact .inl h
    · rcases List.mem_cons.mp h with h | h
      · exact .inr ⟨hself, Prod.mk.inj h⟩
      · exact .inl h

/-- No name is forgotten. -/
theorem nodes_link {n : String} (h : n ∈ g.nodes) : n ∈ (g.link user role).nodes := by
  by_cases hself : user = role
  · subst hself
    exact (link_self g user).symm ▸ h
  · exact (mem_nodes_link hself).mpr (.inr (.inr h))

end RoleGraph

namespace Engine

/-! ## What a sequence of calls leaves over -/

variable {e : Engine} {stranded : List Membership} {s path method : String}

/-- The memberships left over after a removal. One that removes something rebuilds the graph. One
that is refused leaves over what was listed, but only where it had no value to go by. -/
def strandedBy (e : Engine) (value : String) (stranded : List Membership) :
    Except EngineError Bool → List Membership
  | .ok true => []
  | .ok false => stranded
  | .error _ => if value.isEmpty then stranded ++ e.memberships else stranded

/-- The memberships left over after a call. -/
def stranding (e : Engine) (stranded : List Membership) : Call → List Membership
  | .removeMemberships user => e.strandedBy user stranded (e.removeMemberships user).1
  | .removeRoleMemberships role => e.strandedBy role stranded (e.removeRoleMemberships role).1
  | _ => stranded

/-- The engines that sequences of calls lead to, the refused ones included and however patterns are
read, with the memberships that are not listed any more and may still have an edge. -/
inductive Called : List Membership → Engine → Prop where
  | new : Called [] {}
  | call {stranded : List Membership} {e : Engine} (reads : PathPattern.Reader) (c : Call) :
      Called stranded e → Called (e.stranding stranded c) (e.perform reads c).2

/-- Every edge of the graph is a membership that is listed or left over, and leads from one name to
another that is not empty. The graph knows the names of the memberships in somebody else. -/
structure Rooted (stranded : List Membership) (e : Engine) : Prop where
  edges : ∀ user role, (user, role) ∈ e.graph.edges → ⟨user, role⟩ ∈ e.memberships ++ stranded
  proper : ∀ user role, (user, role) ∈ e.graph.edges → user ≠ role ∧ role ≠ ""
  known : ∀ m ∈ e.memberships, m.user ≠ m.role → m.user ∈ e.graph.nodes ∧ m.role ∈ e.graph.nodes
  named : ∀ m ∈ e.memberships, m.role ≠ ""

theorem rooted_new : Rooted [] {} where
  edges _ _ h := nomatch h
  proper _ _ h := nomatch h
  known _ h := nomatch h
  named _ h := nomatch h

/-- The permissions have no part in it. -/
theorem Rooted.permissions (h : e.Rooted stranded) (ps : List Permission) :
    Rooted stranded { e with permissions := ps } :=
  ⟨h.edges, h.proper, h.known, h.named⟩

theorem Rooted.addPermission (h : e.Rooted stranded) (s path method : String) :
    (e.addPermission s path method).2.Rooted stranded := by
  unfold Engine.addPermission
  split
  · exact h
  · split
    · exact h
    · exact h.permissions _

theorem Rooted.addMembership (h : e.Rooted stranded) (user role : String) :
    (e.addMembership user role).2.Rooted stranded := by
  unfold Engine.addMembership
  split
  · exact h
  · rename_i hfull
    have hrole : role ≠ "" := by
      rintro rfl
      exact hfull (Bool.or_true _)
    split
    · exact h
    · refine ⟨fun u r hur => ?_, fun u r hur => ?_, fun m hm hne => ?_, fun m hm => ?_⟩
      · rw [List.append_assoc, List.singleton_append]
        rcases RoleGraph.of_mem_link hur with hur | ⟨-, rfl, rfl⟩
        · exact (List.mem_append.mp (h.edges u r hur)).elim (List.mem_append_left _)
            fun hs => List.mem_append_right _ (.tail _ hs)
        · exact List.mem_append_right _ (.head _)
      · rcases RoleGraph.of_mem_link hur with hur | ⟨hne, rfl, rfl⟩
        · exact h.proper u r hur
        · exact ⟨hne, hrole⟩
      · rcases List.mem_append.mp hm with hm | hm
        · exact (h.known m hm hne).imp RoleGraph.nodes_link RoleGraph.nodes_link
        · obtain rfl := List.mem_singleton.mp hm
          rw [RoleGraph.mem_nodes_link hne, RoleGraph.mem_nodes_link hne]
          exact ⟨.inr (.inl rfl), .inl rfl⟩
      · rcases List.mem_append.mp hm with hm | hm
        · exact h.named m hm
        · exact List.mem_singleton.mp hm ▸ hrole

/-! ## Removing memberships -/

/-- Taking memberships off the graph loses no name and adds no edge, however far it comes. -/
theorem unlinkAll_frame (g : RoleGraph) (gone : List Membership) :
    (unlinkAll g gone).2.nodes = g.nodes ∧
      ∀ edge ∈ (unlinkAll g gone).2.edges, edge ∈ g.edges := by
  induction gone generalizing g with
  | nil => exact ⟨rfl, fun _ h => h⟩
  | cons m rest ih =>
    rw [unlinkAll, RoleGraph.unlink]
    split
    · rename_i heq
      split at heq <;> cases heq
      exact ⟨rfl, fun _ h => h⟩
    · rename_i heq
      split at heq <;> cases heq
      obtain ⟨hnodes, hedges⟩ := ih _
      exact ⟨hnodes, fun edge hedge => (List.mem_filter.mp (hedges edge hedge)).1⟩

/-- Memberships that cannot be taken off the graph include one with a name it does not know. -/
theorem unlinkAll_error {g : RoleGraph} {gone : List Membership} {err : EngineError}
    (h : (unlinkAll g gone).1 = .error err) :
    ∃ m ∈ gone, ¬(m.user ∈ g.nodes ∧ m.role ∈ g.nodes) := by
  by_contra hall
  push Not at hall
  rw [unlinkAll_ok hall] at h
  cases h

/-- A removal finds nothing, is refused on the way, or goes through and rebuilds the graph. -/
theorem removeMembershipsWhere_cases (e : Engine) (test : Membership → Bool) :
    e.removeMembershipsWhere test = (.ok false, e) ∨
    (∃ err g, unlinkAll e.graph (e.memberships.filter test) = (.error err, g) ∧
      e.removeMembershipsWhere test =
        (.error err, { e with memberships := e.memberships.filter (!test ·), graph := g })) ∨
    e.removeMembershipsWhere test =
      (.ok true,
        { e with
          memberships := e.memberships.filter (!test ·)
          graph := RoleGraph.ofMemberships
            ((e.memberships.filter (!test ·)).map fun m => (m.user, m.role)) }) := by
  unfold Engine.removeMembershipsWhere
  simp only
  split
  · exact .inl rfl
  · split
    · rename_i err g heq
      exact .inr (.inl ⟨err, g, heq, rfl⟩)
    · exact .inr (.inr rfl)

/-- Whatever the graph was, a rebuilt one has only memberships that are listed. -/
theorem Rooted.relinked (h : e.Rooted stranded) {left : List Membership}
    (hleft : ∀ m ∈ left, m ∈ e.memberships) :
    Rooted [] { e with
      memberships := left
      graph := RoleGraph.ofMemberships (left.map fun m => (m.user, m.role)) } := by
  have hfollows := RoleGraph.follows_proper left
  refine ⟨fun u r hur => ?_, fun u r hur => ?_, fun m hm hne => ?_,
    fun m hm => h.named m (hleft m hm)⟩
  · exact List.mem_append_left _ (List.mem_filter.mp ((hfollows.edges u r).mp hur)).1
  · have hm := List.mem_filter.mp ((hfollows.edges u r).mp hur)
    exact ⟨Membership.isProper_iff.mp hm.2, h.named _ (hleft _ hm.1)⟩
  · have hm := List.mem_filter.mpr ⟨hm, Membership.isProper_iff.mpr hne⟩
    exact ⟨hfollows.users m hm, hfollows.roles m hm⟩

/-- The name that a refused removal went by is unknown to the graph, so all that it removed is the
membership of that name in itself. -/
theorem Rooted.refused_self (h : e.Rooted stranded) {field : Membership → String} {value : String}
    (hfield : ∀ m, field m = m.user ∨ field m = m.role) {err : EngineError}
    (herr : (unlinkAll e.graph (e.memberships.filter (field · = value))).1 = .error err) :
    ∀ m ∈ e.memberships, field m = value → m.user = m.role := by
  obtain ⟨m₁, hm₁, hunknown⟩ := unlinkAll_error herr
  rw [List.mem_filter, decide_eq_true_eq] at hm₁
  have hself : m₁.user = m₁.role := by
    by_contra hne
    exact hunknown (h.known m₁ hm₁.1 hne)
  have hvalue : m₁.user = value := by
    rcases hfield m₁ with hf | hf
    · exact hf.symm.trans hm₁.2
    · exact hself.trans (hf.symm.trans hm₁.2)
  rw [← hself, and_self, hvalue] at hunknown
  intro m hm hf
  by_contra hne
  obtain ⟨huser, hrole⟩ := h.known m hm hne
  rcases hfield m with hf' | hf'
  · exact hunknown (hf ▸ hf' ▸ huser)
  · exact hunknown (hf ▸ hf' ▸ hrole)

theorem Rooted.remove (h : e.Rooted stranded) {field : Membership → String}
    (hfield : ∀ m, field m = m.user ∨ field m = m.role) (value : String) :
    (e.removeMembershipsWhere (fieldMatches value <| field ·)).2.Rooted
      (e.strandedBy value stranded (e.removeMembershipsWhere (fieldMatches value <| field ·)).1) := by
  have hleft (m : Membership)
      (hm : m ∈ e.memberships.filter fun m => !fieldMatches value (field m)) : m ∈ e.memberships :=
    (List.mem_filter.mp hm).1
  obtain hr | ⟨err, g, heq, hr⟩ | hr :=
    removeMembershipsWhere_cases e (fieldMatches value <| field ·)
  · rw [hr]
    exact h
  · rw [hr]
    obtain ⟨hnodes, hedges⟩ :=
      unlinkAll_frame e.graph (e.memberships.filter (fieldMatches value <| field ·))
    rw [heq] at hnodes hedges
    refine ⟨fun u r hur => ?_, fun u r hur => h.proper u r (hedges _ hur),
      fun m hm hne => hnodes ▸ h.known m (hleft m hm) hne, fun m hm => h.named m (hleft m hm)⟩
    have hold := List.mem_append.mp (h.edges u r (hedges _ hur))
    unfold strandedBy
    simp only
    split
    · rename_i hempty
      exact List.mem_append_right _ (List.mem_append.mpr hold.symm)
    · rename_i hvalue
      rw [String.isEmpty_iff] at hvalue
      refine List.mem_append.mpr (hold.imp (fun hm => ?_) id)
      have hmeets : fieldMatches value = fun v => decide (v = value) := by
        funext v
        rw [Bool.eq_iff_iff, fieldMatches_iff hvalue, decide_eq_true_eq]
      refine List.mem_filter.mpr ⟨hm, ?_⟩
      rw [Bool.not_eq_true', ← Bool.not_eq_true, fieldMatches_iff hvalue]
      rw [hmeets] at heq
      have herr : (unlinkAll e.graph (e.memberships.filter (field · = value))).1 = .error err :=
        congrArg Prod.fst heq
      exact fun hf => (h.proper u r (hedges _ hur)).1 (h.refused_self hfield herr _ hm hf)
  · rw [hr]
    exact h.relinked hleft

/-! ## Every call -/

/-- Whatever call comes next, listed and left over memberships account for the whole graph. -/
theorem Rooted.perform (h : e.Rooted stranded) (reads : PathPattern.Reader) (c : Call) :
    (e.perform reads c).2.Rooted (e.stranding stranded c) := by
  cases c with
  | addPermission s path method => exact h.addPermission s path method
  | removePermissions s => exact h.permissions _
  | addMembership user role => exact h.addMembership user role
  | removeMemberships user => exact h.remove (fun _ => .inl rfl) user
  | removeRoleMemberships role => exact h.remove (fun _ => .inr rfl) role
  | evaluate _ _ _ | permissionsFor _ | membershipsFor _ | snapshot => exact h

theorem Called.rooted (h : e.Called stranded) : e.Rooted stranded := by
  induction h with
  | new => exact rooted_new
  | call reads c _ ih => exact ih.perform reads c

/-! ## Decisions -/

/-- A permission that allows a request is one of those that were gone through. -/
theorem firstMatch_sound {reads : PathPattern.Reader} {ps : List Permission}
    (h : e.firstMatch reads s path method ps = some true) :
    ∃ p ∈ ps, e.Allows reads s path method p := by
  induction ps with
  | nil => cases h
  | cons p rest ih =>
    rw [firstMatch] at h
    split at h
    · cases h
    · rename_i hp
      refine ⟨p, .head _, ?_⟩
      unfold permits at hp
      split at hp
      · rename_i hreach
        obtain ⟨b, hb, hand⟩ := Option.map_eq_some_iff.mp hp
        rw [Bool.and_eq_true, beq_iff_eq] at hand
        exact ⟨hreach, hand.1 ▸ hb, hand.2.symm⟩
      · cases hp
    · obtain ⟨q, hq, hallows⟩ := ih h
      exact ⟨q, .tail _ hq, hallows⟩

/-- Edges lead along memberships that are listed or left over. -/
theorem Rooted.inherits (h : e.Rooted stranded) {user role : String}
    (hreach : e.graph.reaches user role = true) : Inherits (e.memberships ++ stranded) user role :=
  Relation.ReflTransGen.mono h.edges _ _ (RoleGraph.reaches_sound hreach)

/-- Nobody inherits from the empty name. -/
theorem Rooted.reaches_empty (h : e.Rooted stranded) (hs : s ≠ "") :
    e.graph.reaches s "" = false := by
  refine Bool.eq_false_iff.mpr fun hreach => ?_
  rcases (RoleGraph.reaches_sound hreach).cases_tail with heq | ⟨u, -, hedge⟩
  · exact hs heq.symm
  · exact (h.proper u "" hedge).2 rfl

/-- After any calls, refused or not, and however patterns are read: what a named subject is allowed
rests on a permission of the snapshot, with a pattern that covers the path and with that method: its
own or that of a role it inherits from along memberships of the snapshot and along those that are
left over. There are none left over unless a removal without a value to go by has been refused, and
none after the next removal that removed something. -/
theorem Called.evaluate_sound {reads : PathPattern.Reader} (h : e.Called stranded) (hs : s ≠ "")
    (hallowed : e.evaluate reads s path method = some true) :
    ∃ p ∈ e.snapshot.permissions, PathPattern.covers? reads p.path path = some true ∧
      p.method = method ∧ Inherits (e.snapshot.memberships ++ stranded) s p.subject := by
  unfold evaluate at hallowed
  split at hallowed
  -- Without any permission the matcher still runs once, on the empty one.
  · obtain ⟨p, hp, hreach, -⟩ := firstMatch_sound hallowed
    obtain rfl := List.mem_singleton.mp hp
    rw [h.rooted.reaches_empty hs] at hreach
    cases hreach
  · obtain ⟨p, hp, hreach, hcovers, hmethod⟩ := firstMatch_sound hallowed
    refine ⟨p, List.mem_mergeSort.mpr hp, hcovers, hmethod, ?_⟩
    refine Relation.ReflTransGen.mono (fun u r hur => ?_) _ _ (h.rooted.inherits hreach)
    exact List.mem_append.mpr ((List.mem_append.mp hur).imp_left List.mem_mergeSort.mpr)

/-! ## A decision that rests on nothing shown -/

namespace Sample

/-- Ann is a clerk, and clerks may look at the orders. -/
def clerks : Engine :=
  ((({} : Engine).addMembership "ann" "clerk").2.addPermission "clerk" "/orders" "GET").2

theorem called_clerks : Called [] clerks :=
  .call PathPattern.reader (.addPermission "clerk" "/orders" "GET")
    (.call PathPattern.reader (.addMembership "ann" "clerk") .new)

/-- Before Ann became a clerk somebody had been made a member of itself, and now all memberships
are removed. -/
def leaver : Engine :=
  ((((({} : Engine).addMembership "bob" "bob").2.addMembership "ann" "clerk").2.addPermission
    "clerk" "/orders" "GET").2.removeMemberships "").2

end Sample

theorem sample_allowed : Called [] Sample.clerks ∧ "ann" ≠ "" ∧
    Sample.clerks.evaluate PathPattern.reader "ann" "/orders" "GET" = some true ∧
    ∃ p ∈ Sample.clerks.snapshot.permissions,
      PathPattern.covers? PathPattern.reader p.path "/orders" = some true ∧ p.method = "GET" ∧
      Inherits (Sample.clerks.snapshot.memberships ++ []) "ann" p.subject :=
  have hallowed : Sample.clerks.evaluate PathPattern.reader "ann" "/orders" "GET" = some true := by
    decide +kernel
  ⟨Sample.called_clerks, by decide, hallowed,
    Sample.called_clerks.evaluate_sound (by decide) hallowed⟩

/-- The removal of all memberships is refused at that of Bob in himself, no membership is listed any
more, and Ann is still allowed to look at the orders. -/
theorem stranded_edge_decides : ¬∀ reads stranded e, Called stranded e → ∀ s path method, s ≠ "" →
    e.evaluate reads s path method = some true →
    ∃ p ∈ e.snapshot.permissions, PathPattern.covers? reads p.path path = some true ∧
      p.method = method ∧ Inherits e.snapshot.memberships s p.subject := by
  intro h
  have hcalled := Called.new.call PathPattern.reader (.addMembership "bob" "bob")
    |>.call PathPattern.reader (.addMembership "ann" "clerk")
    |>.call PathPattern.reader (.addPermission "clerk" "/orders" "GET")
    |>.call PathPattern.reader (.removeMemberships "")
  obtain ⟨p, hp, -, -, hinherits⟩ := h PathPattern.reader _ Sample.leaver hcalled "ann" "/orders"
    "GET" (by decide) (by decide +kernel)
  have hnone : Sample.leaver.snapshot.memberships = [] := by decide +kernel
  have hall : ∀ p ∈ Sample.leaver.snapshot.permissions, p.subject ≠ "ann" := by decide +kernel
  rw [hnone] at hinherits
  rcases hinherits.cases_head with heq | ⟨_, hstep, -⟩
  · exact hall p hp heq.symm
  · cases hstep

end Engine

end AccessAdmin.Policy
