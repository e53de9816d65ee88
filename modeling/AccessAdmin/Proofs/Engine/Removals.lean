import AccessAdmin.Proofs.Engine.Listings
import AccessAdmin.Proofs.Engine.Stranded

/-!
# Removing and listing by name

What the removals and the listings that go by a name do to an engine and show of it, after any
sequence of calls. By a name that is not empty they are about the rules of that name. By the empty
one they are about all rules, although no rule belongs to it. A removal of memberships cannot take
off the role graph the membership of a name in itself when nothing else brought that name into the
graph. It is refused then, after the memberships have gone from the list.

* `Takes`: the rules that a removal or a listing by a name is about.
* `Engine.Removal`: what a removal of memberships answers and leaves.
* `Engine.Called.by_name`: the calls by a name, and the calls that are refused.
* `Engine.empty_name_takes_all`, `Engine.refusal_takes_membership`: where the calls do more than
  they say.
-/

namespace AccessAdmin.Policy

/-- Whether a removal or a listing by `name` is about a rule of `owner`. -/
def Takes (name owner : String) : Prop := name = "" ∨ owner = name

instance (name owner : String) : Decidable (Takes name owner) :=
  inferInstanceAs (Decidable (name = "" ∨ owner = name))

namespace Engine

variable {e : Engine} {stranded : List Membership} {name : String}

theorem fieldMatches_eq (name owner : String) :
    fieldMatches name owner = decide (Takes name owner) := by
  rw [Bool.eq_iff_iff, decide_eq_true_eq, fieldMatches, Bool.or_eq_true, String.isEmpty_iff,
    beq_iff_eq, Takes]

/-! ## Listings -/

theorem filter_permissions (e : Engine) (keep : Permission → Bool) :
    (e.permissions.filter keep).mergeSort Permission.listedBefore =
      e.snapshot.permissions.filter keep := by
  rw [snapshot, Permission.listedBefore_eq, filter_mergeSort]

theorem filter_memberships (e : Engine) (keep : Membership → Bool) :
    (e.memberships.filter keep).mergeSort Membership.listedBefore =
      e.snapshot.memberships.filter keep := by
  rw [snapshot, Membership.listedBefore_eq, filter_mergeSort]

theorem mem_snapshot {m : Membership} : m ∈ e.snapshot.memberships ↔ m ∈ e.memberships :=
  List.mem_mergeSort

theorem permissionsFor_eq (e : Engine) (name : String) :
    e.permissionsFor name = e.snapshot.permissions.filter (Takes name ·.subject) := by
  rw [permissionsFor, filter_permissions]
  simp only [fieldMatches_eq]

theorem membershipsFor_eq (e : Engine) (name : String) :
    e.membershipsFor name = e.snapshot.memberships.filter (Takes name ·.user) := by
  rw [membershipsFor, filter_memberships]
  simp only [fieldMatches_eq]

/-! ## Removing permissions -/

theorem removePermissions_eq (e : Engine) (name : String) :
    (e.removePermissions name).1 =
        .ok (decide (∃ p ∈ e.snapshot.permissions, Takes name p.subject)) ∧
      (e.removePermissions name).2.snapshot = { e.snapshot with
        permissions := e.snapshot.permissions.filter (¬Takes name ·.subject) } := by
  constructor
  · have hany : (e.permissions.any fun p => fieldMatches name p.subject) =
        decide (∃ p ∈ e.snapshot.permissions, Takes name p.subject) := by
      rw [Bool.eq_iff_iff, decide_eq_true_eq, List.any_eq_true]
      simp only [fieldMatches_eq, decide_eq_true_eq, snapshot, List.mem_mergeSort]
    rw [removePermissions, hany]
  · have hleft := filter_permissions e fun p => !fieldMatches name p.subject
    simp only [fieldMatches_eq, ← decide_not] at hleft
    rw [← hleft]
    simp only [removePermissions, fieldMatches_eq, ← decide_not]
    rfl

/-! ## Removing memberships -/

/-- Somebody is listed as a member of itself, and the role graph does not know the name. -/
def Unlinked (e : Engine) (name : String) : Prop :=
  ⟨name, name⟩ ∈ e.snapshot.memberships ∧ name ∉ e.graph.nodes

/-- What a removal of the memberships with a name in one field answers and leaves. -/
structure Removal (e : Engine) (field : Membership → String) (name : String)
    (result : Except EngineError Bool × Engine) : Prop where
  /-- Whatever the answer is, the memberships that were meant are gone, and nothing else. -/
  shown : result.2.snapshot = { e.snapshot with
    memberships := e.snapshot.memberships.filter fun m => ¬Takes name (field m) }
  answered : (∀ n, Takes name n → ¬e.Unlinked n) →
    result.1 = .ok (decide (∃ m ∈ e.snapshot.memberships, Takes name (field m)))
  refused : (∃ n, Takes name n ∧ e.Unlinked n) →
    ∃ n, Takes name n ∧ e.Unlinked n ∧ result.1 = .error (.unknownNames n n)
  /-- A removal by a name that is refused was about one membership alone. -/
  lone : name ≠ "" → e.Unlinked name →
    ∀ m ∈ e.snapshot.memberships, field m = name → m = ⟨name, name⟩

/-- Taking memberships off the graph goes through if it knows all their names, and is refused at one
whose names it does not know. -/
theorem unlinkAll_cases (g : RoleGraph) (gone : List Membership) :
    (unlinkAll g gone).1 = .ok () ∧ (∀ m ∈ gone, m.user ∈ g.nodes ∧ m.role ∈ g.nodes) ∨
      ∃ m ∈ gone, ¬(m.user ∈ g.nodes ∧ m.role ∈ g.nodes) ∧
        (unlinkAll g gone).1 = .error (.unknownNames m.user m.role) := by
  induction gone generalizing g with
  | nil => exact .inl ⟨rfl, fun _ h => nomatch h⟩
  | cons m rest ih =>
    by_cases hknown : m.user ∈ g.nodes ∧ m.role ∈ g.nodes
    · have hstep : unlinkAll g (m :: rest) =
          unlinkAll { g with edges := g.edges.filter (· != (m.user, m.role)) } rest := by
        rw [unlinkAll, RoleGraph.unlink, if_pos (by simp [hknown])]
      rw [hstep]
      rcases ih { g with edges := g.edges.filter (· != (m.user, m.role)) } with
        ⟨hok, hall⟩ | ⟨m', hm', hunknown, herr⟩
      · exact .inl ⟨hok, List.forall_mem_cons.mpr ⟨hknown, hall⟩⟩
      · exact .inr ⟨m', .tail _ hm', hunknown, herr⟩
    · refine .inr ⟨m, .head _, hknown, ?_⟩
      rw [unlinkAll, RoleGraph.unlink, if_neg (by simpa using hknown)]

/-- A removal answers whether there was something to remove, unless the graph could not follow. -/
theorem removeMembershipsWhere_answer (e : Engine) (test : Membership → Bool) :
    (e.removeMembershipsWhere test).1 =
      (unlinkAll e.graph (e.memberships.filter test)).1.map fun _ => e.memberships.any test := by
  unfold removeMembershipsWhere
  simp only
  split
  · rename_i hgone
    rw [List.isEmpty_iff] at hgone
    have hany : e.memberships.any test = false := by
      rw [List.any_eq_false]
      exact List.filter_eq_nil_iff.mp hgone
    rw [hgone, hany]
    rfl
  · rename_i hgone
    have hany : e.memberships.any test = true := by
      rw [List.isEmpty_iff, List.filter_eq_nil_iff] at hgone
      push Not at hgone
      exact List.any_eq_true.mpr hgone
    split
    · rename_i heq
      rw [heq]
      rfl
    · rename_i heq
      rw [heq, hany]
      rfl

variable {field : Membership → String} (hfield : ∀ m, field m = m.user ∨ field m = m.role)

include hfield

/-- The graph knows the names of every listed membership but one of a name in itself. -/
theorem Rooted.unlinked (h : e.Rooted stranded) {m : Membership} (hm : m ∈ e.memberships)
    (hunknown : ¬(m.user ∈ e.graph.nodes ∧ m.role ∈ e.graph.nodes)) :
    m = ⟨field m, field m⟩ ∧ e.Unlinked (field m) := by
  have hself : m.user = m.role := by
    by_contra hne
    exact hunknown (h.known m hm hne)
  have hname : field m = m.user := by
    rcases hfield m with hf | hf
    · exact hf
    · exact hf.trans hself.symm
  have hm' : m = ⟨field m, field m⟩ := by
    rw [hname]
    exact congrArg (Membership.mk m.user) hself.symm
  refine ⟨hm', mem_snapshot.mpr (hm' ▸ hm), ?_⟩
  rw [← hself, and_self] at hunknown
  exact hname ▸ hunknown

theorem Rooted.removal (h : e.Rooted stranded) (name : String) :
    e.Removal field name (e.removeMembershipsWhere (fieldMatches name <| field ·)) := by
  have hown (n : String) : field ⟨n, n⟩ = n := (hfield ⟨n, n⟩).elim id id
  have hany : (e.memberships.any fun m => fieldMatches name (field m)) =
      decide (∃ m ∈ e.snapshot.memberships, Takes name (field m)) := by
    rw [Bool.eq_iff_iff, decide_eq_true_eq, List.any_eq_true]
    simp only [fieldMatches_eq, decide_eq_true_eq, mem_snapshot]
  have hmem (m : Membership) : (m ∈ e.memberships.filter fun m => fieldMatches name (field m)) ↔
      m ∈ e.memberships ∧ Takes name (field m) := by
    rw [List.mem_filter, fieldMatches_eq, decide_eq_true_eq]
  have hanswer := removeMembershipsWhere_answer e fun m => fieldMatches name (field m)
  rw [hany] at hanswer
  have hcases := unlinkAll_cases e.graph (e.memberships.filter fun m => fieldMatches name (field m))
  refine ⟨?_, fun hlinked => ?_, ?_, ?_⟩
  · have hleft := filter_memberships e fun m => !fieldMatches name (field m)
    simp only [fieldMatches_eq, ← decide_not] at hleft
    rw [← hleft, snapshot, permissions_remove, memberships_remove]
    simp only [fieldMatches_eq, ← decide_not]
    rfl
  · rcases hcases with ⟨hok, -⟩ | ⟨m, hm, hunknown, -⟩
    · rw [hanswer, hok]
      rfl
    · obtain ⟨hm, htakes⟩ := (hmem m).mp hm
      exact absurd (h.unlinked hfield hm hunknown).2 (hlinked _ htakes)
  · rintro ⟨n, htakes, hlisted, hnode⟩
    rcases hcases with ⟨-, hall⟩ | ⟨m, hm, hunknown, herr⟩
    · have hgone := (hmem ⟨n, n⟩).mpr ⟨mem_snapshot.mp hlisted, (hown n).symm ▸ htakes⟩
      exact absurd (hall _ hgone).1 hnode
    · obtain ⟨hm, htakes'⟩ := (hmem m).mp hm
      obtain ⟨hself, hunlinked⟩ := h.unlinked hfield hm hunknown
      refine ⟨field m, htakes', hunlinked, ?_⟩
      rw [hanswer, herr, hself, hown]
      rfl
  · rintro - ⟨-, hnode⟩ m hm hname
    have hunknown : ¬(m.user ∈ e.graph.nodes ∧ m.role ∈ e.graph.nodes) := by
      rintro ⟨huser, hrole⟩
      rcases hfield m with hf | hf
      · exact hnode (hname ▸ hf ▸ huser)
      · exact hnode (hname ▸ hf ▸ hrole)
    exact hname ▸ (h.unlinked hfield (mem_snapshot.mp hm) hunknown).1

omit hfield

/-! ## Every call -/

/-- What the calls by a name do and show. -/
structure ByName (e : Engine) (name : String) : Prop where
  permissionsRemoved :
    (e.removePermissions name).1 =
        .ok (decide (∃ p ∈ e.snapshot.permissions, Takes name p.subject)) ∧
      (e.removePermissions name).2.snapshot = { e.snapshot with
        permissions := e.snapshot.permissions.filter (¬Takes name ·.subject) }
  membershipsRemoved : e.Removal Membership.user name (e.removeMemberships name)
  roleRemoved : e.Removal Membership.role name (e.removeRoleMemberships name)
  permissionsListed : e.permissionsFor name = e.snapshot.permissions.filter (Takes name ·.subject)
  membershipsListed : e.membershipsFor name = e.snapshot.memberships.filter (Takes name ·.user)

/-- A call that is refused changes nothing, unless it removes memberships. -/
theorem refused_unchanged (reads : PathPattern.Reader) (c : Call)
    (h : ¬c.Accepted (e.perform reads c).1) :
    (e.perform reads c).2 = e ∨
      ∃ name, c = .removeMemberships name ∨ c = .removeRoleMemberships name := by
  cases c with
  | addPermission s path method =>
    simp only [perform, addPermission] at h ⊢
    split at h
    · exact .inl (by simp [*])
    · split at h <;> exact absurd ⟨_, rfl⟩ h
  | addMembership user role =>
    simp only [perform, addMembership] at h ⊢
    split at h
    · exact .inl (by simp [*])
    · split at h <;> exact absurd ⟨_, rfl⟩ h
  | removePermissions name => exact absurd ⟨_, rfl⟩ h
  | removeMemberships name => exact .inr ⟨name, .inl rfl⟩
  | removeRoleMemberships name => exact .inr ⟨name, .inr rfl⟩
  | evaluate _ _ _ | permissionsFor _ | membershipsFor _ | snapshot => exact absurd trivial h

/-- After any calls, refused or not, every removal by a name takes from the snapshot the rules it is
about and nothing else, every listing shows just these, and the answer tells whether there were any.
A removal of memberships is refused if one of them is that of a name in itself which the role graph
does not know; by a name that is not empty it then is about that membership alone. Any other call
that is refused changes nothing. -/
theorem Called.by_name (h : e.Called stranded) (name : String) :
    e.ByName name ∧ ∀ reads (c : Call), ¬c.Accepted (e.perform reads c).1 →
      (e.perform reads c).2 = e ∨
        ∃ name, c = .removeMemberships name ∨ c = .removeRoleMemberships name :=
  ⟨⟨removePermissions_eq e name, h.rooted.removal (fun _ => .inl rfl) name,
    h.rooted.removal (fun _ => .inr rfl) name, permissionsFor_eq e name, membershipsFor_eq e name⟩,
    refused_unchanged⟩

theorem sample_by_name : Called [] Sample.clerks ∧ ByName Sample.clerks "clerk" ∧
    ∀ reads (c : Call), ¬c.Accepted (Sample.clerks.perform reads c).1 →
      (Sample.clerks.perform reads c).2 = Sample.clerks ∨
        ∃ name, c = .removeMemberships name ∨ c = .removeRoleMemberships name :=
  ⟨Sample.called_clerks, Sample.called_clerks.by_name "clerk"⟩

namespace Sample

/-- Somebody has been made a member of itself, and there is nobody else. -/
def loner : Engine := (({} : Engine).addMembership "bob" "bob").2

end Sample

/-- A removal by the empty name does not go by the rules that have it: the one of the clerks is gone
after it, although it has another subject. -/
theorem empty_name_takes_all : ¬∀ stranded e, Called stranded e → ∀ name,
    (e.removePermissions name).1 = .ok (decide (∃ p ∈ e.snapshot.permissions, p.subject = name)) ∧
      (e.removePermissions name).2.snapshot = { e.snapshot with
        permissions := e.snapshot.permissions.filter (·.subject ≠ name) } := by
  intro h
  obtain ⟨hanswer, -⟩ := h [] Sample.clerks Sample.called_clerks ""
  have htrue : (Sample.clerks.removePermissions "").1 = .ok true := by decide +kernel
  have hfalse : decide (∃ p ∈ Sample.clerks.snapshot.permissions, p.subject = "") = false := by
    decide +kernel
  rw [htrue, hfalse] at hanswer
  cases hanswer

/-- Bob's membership in himself is gone after the removal that has been refused. -/
theorem refusal_takes_membership : ¬∀ stranded e, Called stranded e → ∀ reads (c : Call),
    ¬c.Accepted (e.perform reads c).1 → (e.perform reads c).2.snapshot = e.snapshot := by
  intro h
  have hrefused : (Sample.loner.perform PathPattern.reader (.removeMemberships "bob")).1 =
      .error (.unknownNames "bob" "bob") := by decide +kernel
  have hsame := h [] Sample.loner
    (Called.new.call PathPattern.reader (.addMembership "bob" "bob")) PathPattern.reader
    (.removeMemberships "bob") (by rw [hrefused]; rintro ⟨_, h⟩; cases h)
  revert hsame
  decide +kernel

end Engine

end AccessAdmin.Policy
